import Kfs.VmemWrap
import Kfs.KHeapSize

/-!
# Freeing a pointer twice

Both free functions know a freed block by the magic word at its old place. A merge
may have taken the block over since, but merging writes lengths and links only, and
the blocks that are still used were apart from it when it was freed. So the word
stays until the next allocation, and a second free finds it.
-/

namespace Kfs

open Kfs.Lib

variable {img : Image}

/-! ## What a free does not touch -/

section Heap

variable {s : State Flat}

theorem kfree_marked {p : Nat} (hp : 8 ≤ p) (hlim : p < 2 ^ 32)
    (hmark : load32 s.mem.data (p - 8) = magicFreed) :
    kfree p s = .error (.panic "kfree: double free detected at %p\n" [p]) s := by
  have hblk : (sub32 p headerSize + 8) % 2 ^ 32 = p - 8 := by
    simp only [sub32, headerSize]
    omega
  have hld : ld (sub32 p headerSize + 8) s = .ok magicFreed s := by
    unfold ld
    rw [hblk, ← hmark]
    rfl
  unfold kfree
  simp only [show p ≠ 0 by omega, ↓reduceIte]
  rw [bind_of_ok hld]
  rfl

end Heap

section Vmem

variable {s : State Flat} {vs₀ pre post : List VBlk} {b c : VBlk}

theorem vmerge_since (bs : List VBlk) : Since VBlk.addr VBlk.free bs (vmerge bs) := by
  unfold vmerge
  split
  · next a z c a' z' c' cs =>
    split
    · intro d hd
      rcases List.mem_cons.mp hd with rfl | hd
      · exact ⟨_, List.mem_cons_self, rfl, fun hf => by cases hf⟩
      · exact ⟨d, by simp [hd], rfl, fun _ => rfl⟩
    · exact .refl _
  · exact .refl _

/-- A merge writes past the mark of a block that was listed. -/
theorem VmemInv.merge_off_mark {vs : List VBlk} (h : VmemInv flatData s vs) (hne : vs ≠ [])
    (hsince : Since VBlk.addr VBlk.free vs₀ vs)
    (hap : vs₀.Pairwise fun b c => b.addr + 20 + b.size ≤ c.addr) (hb : b ∈ vs₀) {x : Nat}
    (h1 : b.addr + 12 ≤ x) (h2 : x < b.addr + 16) : ¬ vmergeWrites s.vmem.vmemList x := by
  intro hx
  cases vs with
  | nil => exact hne rfl
  | cons y vs =>
    -- the head stands where a block of `vs₀` stood
    obtain ⟨y₀, hy₀, haddr, -⟩ := hsince y List.mem_cons_self
    have hhead : s.vmem.vmemList = y.addr := h.list.1
    rw [hhead, ← haddr] at hx
    unfold vmergeWrites at hx
    rcases pairwise_mem hap hb hy₀ with rfl | hsep | hsep <;> omega

theorem vfree_keeps_mark (h : VmemInv flatData s (pre ++ c :: post)) (hc : c.free = false)
    (hsince : Since VBlk.addr VBlk.free vs₀ (pre ++ c :: post))
    (hap : vs₀.Pairwise fun b c => b.addr + 20 + b.size ≤ c.addr)
    (hb : b ∈ vs₀) (hf : b.free = true) :
    ∃ s', vfree (c.addr + 20) s = .ok () s' ∧
      load32 s'.mem.data (b.addr + 12) = load32 s.mem.data (b.addr + 12) := by
  obtain ⟨d, -, hr, -, hsame, -⟩ := vfree_within flatData_isData h
    (flatData_plain s.mem fun _ => True) hc (fun _ _ => trivial) fun _ _ _ _ => trivial
  refine ⟨_, hr, ?_⟩
  show load32 d (b.addr + 12) = _
  have hsame : SameOff (vmergeWrites s.vmem.vmemList) (vmarked s.mem.data c.addr) d := hsame
  rw [hsame.load32]
  · rcases hsince.apart hap hb hf (c := c) (by simp) hc with hsep | hsep
    · unfold vmarked
      rw [load32_store32_ne (by omega), load32_store32_ne (by omega)]
    · unfold vmarked
      rw [load32_store32_ne (by omega), load32_store32_ne (by omega)]
  · exact fun x h1 h2 => h.merge_off_mark (by simp) hsince hap hb h1 h2

theorem vfree_reads {p : Nat} (hp : 8 ≤ p) (hlim : p < 2 ^ 32) :
    ld (sub32 p vmemHeader + 12) s = .ok (load32 s.mem.data (p - 8)) s := by
  have hblk : (sub32 p vmemHeader + 12) % 2 ^ 32 = p - 8 := by
    simp only [sub32, vmemHeader]
    omega
  unfold ld
  rw [hblk]
  rfl

theorem vfree_marked {p : Nat} (hp : 8 ≤ p) (hlim : p < 2 ^ 32)
    (hmark : load32 s.mem.data (p - 8) = vmemMagicFreed) :
    vfree p s = .error (.panic "vfree: double free detected at %x\n" [p]) s := by
  unfold vfree
  simp only [show p ≠ 0 by omega, ↓reduceIte]
  rw [bind_of_ok (vfree_reads hp hlim), hmark]
  rfl

end Vmem

/-! ## Runs between the two frees -/

variable (img) in
/-- A state since block `b` of the heap list `bs₀` was freed, without a `kmalloc`. -/
structure HeapGrave (bs₀ : List Blk) (b : Blk) (y : AllocSys) : Prop where
  ok : AllocOk img y
  list : ∃ bs, HeapInv y.st bs ∧ LiveOf y.klive bs ∧ Since Blk.addr Blk.free bs₀ bs
  mark : load32 y.st.mem.data (b.addr + 8) = magicFreed

variable (img) in
/-- A state since block `b` of the `vmalloc` list `vs₀` was freed, without a `vmalloc`. -/
structure VmemGrave (vs₀ : List VBlk) (b : VBlk) (y : AllocSys) : Prop where
  ok : AllocOk img y
  list : ∃ vs, VmemOk img ⟨y.st, y.vlive⟩ vs ∧ Since VBlk.addr VBlk.free vs₀ vs
  mark : load32 y.st.mem.data (b.addr + 12) = vmemMagicFreed

def NoKmalloc (x : AllocSys) (op : AllocOp) : Prop := Unwrapped x op ∧ ∀ n, op ≠ .heap (.kmalloc n)

def NoVmalloc (_ : AllocSys) (op : AllocOp) : Prop := ∀ n, op ≠ .vmalloc n

theorem NoVmalloc.unwrapped {x : AllocSys} {op : AllocOp} (h : NoVmalloc x op) :
    Unwrapped x op := by
  cases op with
  | vmalloc n => exact absurd rfl (h n)
  | heap _ => trivial
  | kbrk _ => trivial
  | vfree _ => trivial
  | vbrk _ => trivial
  | write _ _ _ => trivial

/-- Between two frees of the same heap pointer its mark stays. -/
theorem HeapGrave.step {bs₀ : List Blk} {b : Blk} {y z : AllocSys} {op : AllocOp}
    (hap : bs₀.Pairwise fun b c => b.addr + 16 + b.size ≤ c.addr)
    (hb : b ∈ bs₀) (hf : b.free = true)
    (hend : b.addr + 16 ≤ kvmemStart) (h : HeapGrave img bs₀ b y) (hc : NoKmalloc y op)
    (hs : AnyStep img y op z) : HeapGrave img bs₀ b z := by
  obtain ⟨-, vs, -, -, hv⟩ := h.ok
  obtain ⟨bs, hh, hl, hsince⟩ := h.list
  have hs := hs.alloc hc.1
  have hok := hs.ok h.ok
  have hrest : (∀ o, op ≠ .heap o) → HeapGrave img bs₀ b z := by
    intro hop
    obtain ⟨hk, ⟨u, hu⟩, hd⟩ := hs.off_heap hv hop
    refine ⟨hok, ⟨bs, hh.off_heap hu hd, hk ▸ hl, hsince⟩, ?_⟩
    rw [hd.load32 fun x _ _ hx => ?_, h.mark]
    omega
  obtain ⟨s', klive', vlive'⟩ := z
  cases op with
  | heap o =>
    obtain ⟨hs, rfl⟩ := hs
    have hmarked : HeapMarked bs₀ b ⟨y.st, y.klive⟩ := ⟨h.list, h.mark⟩
    have hmarked' := hmarked.step hap hb hf (fun n hn => hc.2 n (by rw [hn])) hs
    exact ⟨hok, hmarked'.list, hmarked'.mark⟩
  | kbrk a => exact hrest fun _ h => by cases h
  | vmalloc n => exact hrest fun _ h => by cases h
  | vfree p => exact hrest fun _ h => by cases h
  | vbrk a => exact hrest fun _ h => by cases h
  | write p a v => exact hrest fun _ h => by cases h

theorem VmemGrave.step {vs₀ : List VBlk} {b : VBlk} {y z : AllocSys} {op : AllocOp}
    (hap : vs₀.Pairwise fun b c => b.addr + 20 + b.size ≤ c.addr)
    (hb : b ∈ vs₀) (hf : b.free = true)
    (hlo : kvmemStart ≤ b.addr) (h : VmemGrave img vs₀ b y) (hc : NoVmalloc y op)
    (hs : AnyStep img y op z) : VmemGrave img vs₀ b z := by
  obtain ⟨bs, -, hh, hl, -⟩ := h.ok
  obtain ⟨vs, hv, hsince⟩ := h.list
  have hs := hs.alloc hc.unwrapped
  have hok := hs.ok h.ok
  obtain ⟨s', klive', vlive'⟩ := z
  cases op with
  | heap o =>
    obtain ⟨hs, rfl⟩ := hs
    obtain ⟨⟨hpmm, htab, hvmem⟩, hsame⟩ := hs.off_vmem hh hl
    refine ⟨hok, ⟨vs, ⟨?_, hv.list.frame hvmem hsame, hv.live⟩, hsince⟩, ?_⟩
    · show FrameInv img s' s'.vmem.vmemCurrent
      rw [show s'.vmem = y.st.vmem from hvmem]
      exact hv.frames.congr hpmm htab
    · exact (hsame.load32 fun x _ _ hx => by omega).trans h.mark
  | kbrk a =>
    obtain ⟨⟨r, hr⟩, -, rfl⟩ := hs
    obtain ⟨u, hst⟩ := kbrk_heapUsed hr
    have hst : s' = _ := hst
    subst hst
    exact ⟨hok, ⟨vs, ⟨hv.frames.congr rfl rfl, hv.list.frame rfl (SameOff.refl _ _), hv.live⟩,
      hsince⟩,
      h.mark⟩
  | vmalloc n => exact absurd rfl (hc n)
  | vfree p =>
    obtain ⟨⟨hp, hr, rfl⟩, -⟩ := hs
    obtain ⟨pre, c, post, rfl, rfl, -, hv'⟩ := hv.vfree hp hr
    obtain ⟨c', hc', hused, haddr⟩ := hv.live _ hp
    obtain rfl : c' = c := by
      rcases hv.list.blocks.sep hc' (c := c) (by simp) with rfl | hsep
      · rfl
      · omega
    obtain ⟨s₁, hr₁, hsame⟩ := vfree_keeps_mark hv.list hused hsince hap hb hf
    rw [hr₁] at hr
    injection hr with _ heq
    subst heq
    have hfree : Since VBlk.addr VBlk.free (pre ++ c' :: post) (pre ++ c'.release :: post) :=
      .free_at rfl rfl
    exact ⟨hok, ⟨_, hv', hsince.trans (hfree.trans (vmerge_since _))⟩, hsame.trans h.mark⟩
  | vbrk a =>
    obtain ⟨⟨-, ⟨r, hr⟩, rfl⟩, -⟩ := hs
    have hg := vbrk_frames hv.frames hr
    refine ⟨hok, ⟨vs, ⟨hg.frames, hv.list.grown hg, hv.live⟩, hsince⟩, ?_⟩
    show load32 s'.mem.data _ = _
    rw [show s'.mem.data = y.st.mem.data from hg.data, h.mark]
  | write p a v =>
    obtain ⟨⟨hp, h1, h2, hst, rfl⟩, -⟩ := hs
    have hst : s' = y.st.setData (storeByte y.st.mem.data a v) := hst
    subst hst
    obtain ⟨c, hcm, hused, rfl⟩ := hv.live p hp
    have hsize : VmemSys.sizeOf ⟨y.st, y.vlive⟩ (c.addr + 20) = c.size :=
      (hv.list.list.holds c hcm).1
    refine ⟨hok, ⟨vs, hv.write hp h1 h2, hsince⟩, ?_⟩
    have h1 : c.addr + 20 ≤ a := h1
    rw [hsize] at h2
    have hne : a < b.addr + 12 ∨ b.addr + 16 ≤ a := by
      rcases hsince.apart hap hb hf hcm hused with hsep | hsep
      · omega
      · omega
    have hbyte : SameOff (· = a) y.st.mem.data (storeByte y.st.mem.data a v) :=
      fun x hx => storeByte_other hx
    exact (hbyte.load32 fun x _ _ _ => by omega).trans h.mark

/-! ## The second free -/

variable (img) in
/-- `kfree(p)` returns, and after any run without `kmalloc` a second `kfree(p)` panics as a
double free and changes nothing. -/
def KfreeCaught (y : AllocSys) (p : Nat) : Prop :=
  ∃ z, AnyStep img y (.heap (.kfree p)) z ∧ ∀ tr, Trace (AnyStep img) z tr → Meets NoKmalloc z tr →
    kfree p (lastOf z tr).st =
      .error (.panic "kfree: double free detected at %p\n" [p]) (lastOf z tr).st

variable (img) in
/-- `vfree(p)` returns, and after any run without `vmalloc` a second `vfree(p)` panics as a
double free and changes nothing. -/
def VfreeCaught (y : AllocSys) (p : Nat) : Prop :=
  ∃ z, AnyStep img y (.vfree p) z ∧ ∀ tr, Trace (AnyStep img) z tr → Meets NoVmalloc z tr →
    vfree p (lastOf z tr).st =
      .error (.panic "vfree: double free detected at %x\n" [p]) (lastOf z tr).st

theorem AllocOk.kfree_caught {y : AllocSys} {p : Nat} (h : AllocOk img y) (hp : p ∈ y.klive) :
    KfreeCaught img y p := by
  obtain ⟨bs, vs, hh, hl, hv⟩ := id h
  obtain ⟨b, hb, hused, rfl⟩ := (hl p).mp hp
  obtain ⟨pre, post, rfl⟩ := List.append_of_mem hb
  have hbnd := hh.bounds (b := b) (by simp)
  have hend : b.release.addr + 16 ≤ kvmemStart := by
    show b.addr + 16 ≤ kvmemStart
    simp only [kvmemStart]
    omega
  obtain ⟨s₁, hr, hh', -, -, -, hmark⟩ := kfree_spec hh hused
  have hstep : AllocStep img y (.heap (.kfree (b.addr + 16)))
      ⟨s₁, y.klive.erase (b.addr + 16), y.vlive⟩ := ⟨⟨hp, hr, rfl⟩, rfl⟩
  refine ⟨_, hstep, fun tr ht hm => ?_⟩
  have hgrave : HeapGrave img (pre ++ b.release :: post) b.release
      ⟨s₁, y.klive.erase (b.addr + 16), y.vlive⟩ :=
    ⟨hstep.ok h, ⟨_, hh', hl.release hh.tiled, coalesce_since 16 _⟩, hmark⟩
  have hlast := ht.inv (fun _ _ _ hI hc hs => HeapGrave.step (release_tiled hh.tiled).apart
    (by simp) rfl hend hI hc hs) hm hgrave
  exact kfree_marked (by omega) (by omega) hlast.mark

theorem AllocOk.vfree_caught {y : AllocSys} {p : Nat} (h : AllocOk img y) (hp : p ∈ y.vlive) :
    VfreeCaught img y p := by
  obtain ⟨bs, vs, -, -, hv⟩ := id h
  obtain ⟨b, hb, hused, rfl⟩ := hv.live p hp
  obtain ⟨pre, post, rfl⟩ := List.append_of_mem hb
  have hbnd := hv.list.mem (b := b) (by simp)
  have hlo : kvmemStart ≤ b.release.addr := hbnd.1
  obtain ⟨d, -, hr, hinv, hsame, -⟩ := vfree_within flatData_isData hv.list
    (flatData_plain y.st.mem fun _ => True) hused (fun _ _ => trivial) fun _ _ _ _ => trivial
  have hr : vfree (b.addr + 20) y.st = .ok () (y.st.setData d) := hr
  have hsame : SameOff (vmergeWrites y.st.vmem.vmemList) (vmarked y.st.mem.data b.addr) d := hsame
  have hap : (pre ++ b.release :: post).Pairwise fun b c => b.addr + 20 + b.size ≤ c.addr :=
    (hv.list.blocks.setFree true).apart
  have hmark : load32 d (b.addr + 12) = vmemMagicFreed := by
    have hoff : ∀ x, b.addr + 12 ≤ x → x < b.addr + 16 → ¬ vmergeWrites y.st.vmem.vmemList x :=
      fun x h1 h2 => hv.list.mark.merge_off_mark (by simp) (.refl _) hap
        (b := b.release) (by simp) h1 h2
    rw [hsame.load32 hoff]
    exact load32_store32 (by decide)
  have hstep : AllocStep img y (.vfree (b.addr + 20))
      ⟨y.st.setData d, y.klive, y.vlive.erase (b.addr + 20)⟩ := ⟨⟨hp, hr, rfl⟩, rfl⟩
  refine ⟨_, hstep, fun tr ht hm => ?_⟩
  have hgrave : VmemGrave img (pre ++ b.release :: post) b.release
      ⟨y.st.setData d, y.klive, y.vlive.erase (b.addr + 20)⟩ :=
    ⟨hstep.ok h, ⟨_, ⟨hv.frames.congr rfl rfl, hinv, hv.live.release⟩, vmerge_since _⟩, hmark⟩
  have hlast := ht.inv (fun _ _ _ hI hc hs => VmemGrave.step hap (by simp) rfl hlo hI hc hs)
    hm hgrave
  exact vfree_marked (by omega) (by omega) hlast.mark

/-- **Double frees are caught** in every run of both allocators in which no `vmalloc`
computes a wrapped end. -/
theorem double_free_caught {x : AllocSys} {tr : List (AllocOp × AllocSys)} (hx : AllocStart img x)
    (ht : Trace (AnyStep img) x tr) (hm : Meets Unwrapped x tr) :
    (∀ p ∈ (lastOf x tr).klive, KfreeCaught img (lastOf x tr) p) ∧
      ∀ p ∈ (lastOf x tr).vlive, VfreeCaught img (lastOf x tr) p := by
  have hok := unwrapped_ok hx ht hm
  exact ⟨fun p hp => hok.kfree_caught hp, fun p hp => hok.vfree_caught hp⟩

/-- The first pointer of all. -/
theorem double_free_caught_first : ∃ (x : AllocSys) (tr : List (AllocOp × AllocSys)),
    AllocStart Image.readme x ∧ Trace (AnyStep Image.readme) x tr ∧ Meets Unwrapped x tr ∧
    0x300014 ∈ (lastOf x tr).vlive ∧ VfreeCaught Image.readme (lastOf x tr) 0x300014 := by
  obtain ⟨s, hr, hboot⟩ := memoryInit_spec Image.readme Flat.blank
  obtain ⟨s', hv⟩ := vmalloc_first hboot
  have hstart : AllocStart Image.readme ⟨s, ∅, ∅⟩ := ⟨_, hr, rfl, rfl⟩
  have hrun : Trace (AnyStep Image.readme) ⟨s, ∅, ∅⟩ [(.vmalloc 100, ⟨s', ∅, insert 0x300014 ∅⟩)] :=
    ⟨⟨by decide, ⟨_, hv, rfl⟩, rfl⟩, trivial⟩
  have hmeets : Meets Unwrapped ⟨s, ∅, ∅⟩ [(.vmalloc 100, ⟨s', ∅, insert 0x300014 ∅⟩)] :=
    ⟨hboot.vmemOk.no_wrap (by decide), trivial⟩
  have hlive : 0x300014 ∈ (insert 0x300014 ∅ : Finset Nat) := Finset.mem_insert_self _ _
  exact ⟨_, _, hstart, hrun, hmeets, hlive, (double_free_caught hstart hrun hmeets).2 _ hlive⟩

/-! ## Overlapping headers

A wrapped size makes a block that is larger than the region. Split, it puts a header
over the place of the next block, and then one `vfree` overwrites the mark of another. -/

section Overlap

variable {s : State Flat}

/-- `vmalloc` of one page, whatever the size it records. -/
theorem vmalloc_page {bs : List VBlk} {n : Nat} (h : FrameInv img s s.vmem.vmemCurrent)
    (hseg : Seg vNode s.mem.data s.vmem.vmemList bs 0)
    (hin : ∀ b ∈ bs, kvmemStart ≤ b.addr ∧ b.addr + 20 ≤ 0xC00000) (hlen : bs.length < 2 ^ 32)
    (hn : n ≠ 0) (hbs : ∀ b ∈ bs, ¬ b.Fits (round8 n)) (hk : vmemPages (round8 n) = 1)
    (hend : s.vmem.vmemCurrent + 4096 ≤ kvmemEnd) (hfree : 1 ≤ s.pmm.freePages)
    (hlast : lastAddr 0 bs ≤ 0xC00000) :
    ∃ s', vmalloc img n s = .ok (s.vmem.vmemCurrent + 20) s' ∧
      s'.mem.data = vlinked (newHeader s.mem.data s.vmem.vmemCurrent (round8 n) 4076)
        (lastAddr 0 bs)
        s.vmem.vmemCurrent ∧
      s'.vmem.vmemCurrent = s.vmem.vmemCurrent + 4096 ∧
      s'.vmem.vmemList = (if lastAddr 0 bs ≠ 0 then s.vmem.vmemList else s.vmem.vmemCurrent) ∧
      s'.pmm.freePages = s.pmm.freePages - 1 ∧ FrameInv img s' s'.vmem.vmemCurrent := by
  have hhi := h.hi
  have hend' :
      add32 s.vmem.vmemCurrent (1 * pageSize % 2 ^ 32) = s.vmem.vmemCurrent + 1 * 4096 := by
    simp only [add32, pageSize]
    omega
  simp only [kvmemEnd] at hend
  obtain ⟨s₁, hmap, hfree₁⟩ | ⟨hfew, -⟩ := vmallocMap_outcome h (k := 1) (by omega)
  swap
  · omega
  obtain ⟨hf₁, ⟨q, tb, hs₁⟩, -⟩ := vmallocMap_frames h rfl (by omega) hmap
  have hstep :
      vmallocStep (round8 n) (lastAddr 0 bs, 0) s = .ok (.inr (.last (lastAddr 0 bs))) s := rfl
  have hsearch := vsearch_ends flatData_isData (flatData_plain s.mem _) (Nat.le_refl _) hseg hin
    (by rw [maxRounds_eq]; exact hlen) hbs hstep
  have hv : vmalloc img n s = vmemAppend (round8 n) (lastAddr 0 bs) 1
    (s.vmem.vmemCurrent + 1 * 4096) s₁ := by
    unfold vmalloc
    rw [if_neg hn, get_bind_apply, bind_of_ok hsearch]
    show vmallocExpand img (round8 n) (lastAddr 0 bs) s = _
    unfold vmallocExpand
    rw [get_bind_apply, hk]
    simp only [hend']
    rw [if_neg (by simp only [kvmemEnd]; omega), bind_of_ok hmap]
  have hvm : s₁.vmem = s.vmem := by rw [hs₁]
  have hd : s₁.mem.data = s.mem.data := by rw [hs₁]
  rw [vmemAppend_flat (by rw [hvm]; omega) hlast, hvm, hd] at hv
  refine ⟨_, hv, rfl, rfl, rfl, hfree₁, ?_⟩
  exact hf₁.congr rfl rfl

theorem vmemServe_flat {a z r : Nat} (hz : load32 s.mem.data a = z) (ha : a + 40 < 2 ^ 32)
    (hr : r + 36 < 2 ^ 32) (hsplit : r + 36 ≤ z → a + 40 + r < 2 ^ 32) :
    vmemServe a r s = .ok () (s.setData (vserved s.mem.data a z r)) := by
  have hzlt : z < 2 ^ 32 := hz ▸ load32_lt _ _
  have hneed : add32 (add32 r vmemHeader) 16 = r + 36 := by
    simp only [vmemHeader, add32]
    omega
  unfold vmemServe vserved
  rw [bind_of_ok (ld_flat (by omega) s), hz, hneed]
  by_cases hz36 : r + 36 ≤ z
  · have hlim := hsplit hz36
    have hn : add32 (add32 a vmemHeader) r = a + 20 + r := by
      simp only [vmemHeader, add32]
      omega
    have hrest : sub32 (sub32 z r) vmemHeader = z - r - 20 := by
      simp only [vmemHeader, sub32]
      omega
    simp only [ge_iff_le, hz36, ↓reduceIte, hn, hrest]
    rw [bind_of_ok (st_flat (by omega) _ _), bind_of_ok (st_flat (by omega) _ _),
      bind_of_ok (ld_flat (by omega) _), bind_of_ok (st_flat (by omega) _ _),
      bind_of_ok (st_flat (by omega) _ _), bind_of_ok (st_flat (by omega) _ _),
      bind_of_ok (st_flat (by omega) _ _), st_flat (by omega) _ _]
    simp only [State.setData]
    rw [load32_store32_ne (by omega), load32_store32_ne (by omega)]
  · simp only [ge_iff_le, hz36, ↓reduceIte]
    rw [bind_of_ok (st_flat (by omega) _ _), st_flat (by omega) _ _]
    rfl

variable (img) in
/-- `vmalloc` from a block that is large enough, whatever its header says else. -/
theorem vmalloc_serves {bs : List VBlk} {n a z f : Nat}
    (hseg : Seg vNode s.mem.data s.vmem.vmemList bs a)
    (hin : ∀ b ∈ bs, kvmemStart ≤ b.addr ∧ b.addr + 20 ≤ 0xC00000) (hlen : bs.length < 2 ^ 32)
    (hn : n ≠ 0) (hbs : ∀ b ∈ bs, ¬ b.Fits (round8 n)) (hnull : a ≠ 0)
    (hz : load32 s.mem.data a = z) (hfree : load32 s.mem.data (a + 8) = f) (hf : f ≠ 0)
    (hr : round8 n ≤ z) (ha : a + 40 < 2 ^ 32) (hr' : round8 n + 36 < 2 ^ 32)
    (hsplit : round8 n + 36 ≤ z → a + 40 + round8 n < 2 ^ 32) :
    vmalloc img n s = .ok (a + 20) (s.setData (vserved s.mem.data a z (round8 n))) := by
  have hfits : vmemFits a (round8 n) s = .ok true s := by
    unfold vmemFits
    refine (andThen_pure (p := true) (q := true) ?_ fun _ => ?_).trans rfl
    · rw [bind_of_ok (ld_flat (by omega) s), hfree, pure_apply, decide_eq_true hf]
    · rw [bind_of_ok (ld_flat (by omega) s), hz, pure_apply, decide_eq_true hr]
  have hstep : vmallocStep (round8 n) (lastAddr 0 bs, a) s =
      .ok (.inr (.found (a + 20))) (s.setData (vserved s.mem.data a z (round8 n))) := by
    unfold vmallocStep
    simp only [hnull, ↓reduceIte]
    rw [bind_of_ok hfits]
    simp only [↓reduceIte]
    rw [bind_of_ok (vmemServe_flat hz ha hr' hsplit)]
    simp only [vmemHeader, add32_eq (show a + 20 < 2 ^ 32 by omega), pure_apply]
  have hsearch := vsearch_ends flatData_isData (flatData_plain s.mem _) (Nat.le_refl _) hseg hin
    (by rw [maxRounds_eq]; exact hlen) hbs hstep
  unfold vmalloc
  rw [if_neg hn, get_bind_apply, bind_of_ok hsearch]
  rfl

theorem vfree_alone {a : Nat} {x : VBlk} {c next : Nat}
    (hmagic : load32 s.mem.data (a + 12) = vmemMagicAllocated) (hlim : a + 20 ≤ 0xC00000)
    (hlist : s.vmem.vmemList = x.addr) (hx : vNode.holds (vmarked s.mem.data a) x)
    (hc : x.cap = some c) (hend : x.addr + 20 + c ≤ 0xC00000)
    (hnext : load32 (vmarked s.mem.data a) (x.addr + 16) = next) (hn : next ≤ 0xC00000)
    (hno : x.free = false ∨ load32 (vmarked s.mem.data a) (next + 8) = 0) :
    vfree (a + 20) s = .ok () (s.setData (vmarked s.mem.data a)) := by
  have htest := vfreeMerge_test (s := s.setData (vmarked s.mem.data a)) flatData_isData
    (flatData_plain _ fun _ => True) hlist hx hc hend (fun _ _ _ => trivial) hnext
    (fun _ _ _ _ => trivial) hn
  have hoff : (x.free && decide (load32 (vmarked s.mem.data a) (next + 8) ≠ 0)) = false := by
    rcases hno with hno | hno
    · rw [hno, Bool.false_and]
    · simp only [hno, ne_eq, not_true_eq_false, decide_false, Bool.and_false]
  rw [vfree_eq flatData_isData (flatData_plain s.mem fun _ => True) hmagic hlim fun _ _ _ =>
    trivial]
  refine htest.trans ?_
  rw [show flatData.view (s.setData (vmarked s.mem.data a)) = vmarked s.mem.data a from rfl, hoff]
  rfl

theorem words_newHeader {m : Mem} {l : List (Nat × Nat)} (h : Words m l) (e : Nat) {r c : Nat}
    (hr : r < 2 ^ 32) (hc : c < 2 ^ 32) :
    Words (newHeader m e r c)
      (putWord (putWord (putWord (putWord (putWord l e r) (e + 4) c) (e + 8) 0)
      (e + 12) vmemMagicAllocated) (e + 16) 0) :=
  ((((h.store e hr).store (e + 4) hc).store (e + 8) (by decide)).store (e + 12) (by decide)).store
    (e + 16) (by decide)

theorem words_vmarked {m : Mem} {l : List (Nat × Nat)} (h : Words m l) (a : Nat) :
    Words (vmarked m a) (putWord (putWord l (a + 8) 1) (a + 12) vmemMagicFreed) :=
  (h.store (a + 8) (by decide)).store (a + 12) (by decide)

theorem words_vlinked {m : Mem} {l : List (Nat × Nat)} (h : Words m l) {pv e : Nat} (hpv : pv ≠ 0)
    (he : e < 2 ^ 32) : Words (vlinked m pv e) (putWord l (pv + 16) e) := by
  unfold vlinked
  rw [if_pos hpv]
  exact h.store (pv + 16) he

theorem words_split {m : Mem} {l : List (Nat × Nat)} (h : Words m l) {a z r q : Nat}
    (hq : (a + 16, q) ∈ l) (hz : r + 36 ≤ z) (hlim : z < 2 ^ 32) (ha : a + 20 + r < 2 ^ 32) :
    Words (vserved m a z r) (putWord (putWord (putWord (putWord (putWord (putWord (putWord l
      (a + 20 + r) (z - r - 20)) (a + 20 + r + 8) 1) (a + 20 + r + 16) q) a r)
        (a + 16) (a + 20 + r))
      (a + 8) 0) (a + 12) vmemMagicAllocated) := by
  have hq' : q < 2 ^ 32 := h.get hq ▸ load32_lt _ _
  unfold vserved
  rw [if_pos hz, h.get hq]
  exact ((((((h.store _ (by omega)).store _ (by omega)).store _ hq').store _ (by omega)).store
    _ ha).store
    _ (by omega)).store _ (by decide)

theorem words_whole {m : Mem} {l : List (Nat × Nat)} (h : Words m l) (a : Nat) {z r : Nat}
    (hz : ¬ r + 36 ≤ z) :
    Words (vserved m a z r) (putWord (putWord l (a + 8) 0) (a + 12) vmemMagicAllocated) := by
  unfold vserved
  rw [if_neg hz]
  exact (h.store _ (by decide)).store _ (by decide)

theorem words_holds {m : Mem} {l : List (Nat × Nat)} (h : Words m l) {a z c : Nat}
    (hsize : (a, z) ∈ l) (hcap : (a + 4, c) ∈ l) (hfree : (a + 8, 0) ∈ l)
    (hmagic : (a + 12, vmemMagicAllocated) ∈ l) : vNode.holds m ⟨a, z, false, some c⟩ := by
  refine ⟨h.get hsize, h.get hfree, fun _ => h.get hmagic, ?_⟩
  rintro _ ⟨⟩
  exact h.get hcap

/-- A state with room for another page, a list that starts at `KVMEM_START`, and the words
`l`. -/
structure WordState (s : State Flat) (l : List (Nat × Nat)) : Prop where
  frames : FrameInv Image.readme s s.vmem.vmemCurrent
  current : s.vmem.vmemCurrent ≤ 0x302000
  list : s.vmem.vmemList = 0x300000
  free : 1 ≤ s.pmm.freePages
  words : Words s.mem.data l

theorem WordState.setData {d : Mem} {l l' : List (Nat × Nat)}
    (h : WordState s l) (hd : Words d l') :
    WordState (s.setData d) l' := ⟨h.frames.congr rfl rfl, h.current, h.list, h.free, hd⟩

theorem WordState.mono {l l' : List (Nat × Nat)} (h : WordState s l) (hl : ∀ e ∈ l', e ∈ l) :
    WordState s l' := ⟨h.frames, h.current, h.list, h.free, h.words.mono hl⟩

/-- A block of `2 ^ 32 - 8` bytes and one of 8, on one page each. -/
theorem overlap_start : ∃ s : State Flat,
    Reach (AllocStart Image.readme) (AnyStep Image.readme) ⟨s, ∅, {0x301014, 0x300014}⟩ ∧
    s.vmem.vmemCurrent = 0x302000 ∧
    WordState s [(0x300000, 0xFFFFFFF8), (0x300004, 4076), (0x300008, 0),
      (0x30000C, vmemMagicAllocated), (0x300010, 0x301000), (0x301000, 8), (0x301004, 4076),
      (0x301008, 0), (0x30100C, vmemMagicAllocated), (0x301010, 0)] := by
  obtain ⟨s, hr, hboot⟩ := memoryInit_spec Image.readme Flat.blank
  have hcur : s.vmem.vmemCurrent = 0x300000 := by rw [hboot.vmem]; rfl
  have hseg : Seg vNode s.mem.data s.vmem.vmemList [] 0 := by
    rw [hboot.vmem]
    rfl
  have hfree : s.pmm.freePages = 1792 := by rw [hboot.frames.free hboot.paging.pmm]
  obtain ⟨s₁, hv₁, hd₁, hcur₁, hlist₁, hfree₁, hf₁⟩ := vmalloc_page (n := 0xFFFFFFF8)
    hboot.vmemOk.frames hseg (by simp) (by decide) (by decide) (by simp) (by decide)
    (by rw [hcur]; decide) (by rw [hfree]; decide) (by decide)
  simp only [hcur] at hv₁ hd₁ hcur₁ hlist₁
  have hw₁ : Words s₁.mem.data [(0x300000, 0xFFFFFFF8), (0x300004, 4076), (0x300008, 0),
      (0x30000C, vmemMagicAllocated), (0x300010, 0)] := by
    rw [hd₁]
    exact (words_newHeader (.nil _) 0x300000 (by decide) (by decide)).mono (by decide)
  have hlist₁ : s₁.vmem.vmemList = 0x300000 := hlist₁
  have hseg₁ :
      Seg vNode s₁.mem.data s₁.vmem.vmemList [⟨0x300000, 0xFFFFFFF8, false, some 4076⟩] 0 := by
    rw [hlist₁]
    exact ⟨rfl, by decide, words_holds hw₁ (by decide) (by decide) (by decide) (by decide),
      hw₁.get (v := 0) (by decide)⟩
  obtain ⟨s₂, hv₂, hd₂, hcur₂, hlist₂, hfree₂, hf₂⟩ := vmalloc_page (n := 8) hf₁ hseg₁
    (by simp) (by decide) (by decide) (by simp [VBlk.Fits]) (by decide) (by rw [hcur₁]; decide)
    (by rw [hfree₁, hfree]; decide) (by decide)
  simp only [hcur₁] at hv₂ hd₂ hcur₂ hlist₂
  refine ⟨s₂, ?_, hcur₂, hf₂, by rw [hcur₂], hlist₂.trans hlist₁,
    by rw [hfree₂, hfree₁, hfree]; decide, ?_⟩
  · have hx₁ : Reach (AllocStart Image.readme) (AnyStep Image.readme) ⟨s₁, ∅, {0x300014}⟩ :=
      .step (i := .vmalloc 0xFFFFFFF8) (.init (s := ⟨s, ∅, ∅⟩) ⟨_, hr, rfl, rfl⟩)
        ⟨by decide, ⟨_, hv₁, rfl⟩, rfl⟩
    exact .step (i := .vmalloc 8) hx₁ ⟨by decide, ⟨_, hv₂, rfl⟩, rfl⟩
  · rw [hd₂]
    exact (words_vlinked (words_newHeader hw₁ 0x301000 (by decide) (by decide)) (by decide)
      (by decide)).mono (by decide)

/-- The first block is freed and taken again: the header split off lies across the end of
the region. -/
theorem overlap_split : ∃ s : State Flat,
    Reach (AllocStart Image.readme) (AnyStep Image.readme) ⟨s, ∅, {0x300014, 0x301014}⟩ ∧
    s.vmem.vmemCurrent = 0x302000 ∧
    WordState s [(0x300000, 8168), (0x300004, 4076), (0x300008, 0), (0x30000C, vmemMagicAllocated),
      (0x300010, 0x301FFC), (0x301FFC, 0xFFFFDFFC), (0x302004, 1), (0x30200C, 0x301000),
      (0x301000, 8), (0x301004, 4076), (0x301008, 0), (0x30100C, vmemMagicAllocated),
      (0x301010, 0)] := by
  obtain ⟨s, hx, hcur, hs⟩ := overlap_start
  -- `vfree(0x300014)`
  have hs₁ := hs.setData (words_vmarked hs.words 0x300000)
  have hA₁ : vNode.holds (vmarked s.mem.data 0x300000) ⟨0x300000, 0xFFFFFFF8, true, some 4076⟩ := by
    refine ⟨hs₁.words.get (by decide), hs₁.words.get (by decide), fun h => (by cases h), ?_⟩
    rintro _ ⟨⟩
    exact hs₁.words.get (by decide)
  have hv₁ := vfree_alone (hs.words.get (by decide)) (by decide) hs.list hA₁ rfl (by decide)
    (hs₁.words.get (v := 0x301000) (by decide)) (by decide)
    (.inr (hs₁.words.get (v := 0) (by decide)))
  -- `vmalloc(8168)`
  have hseg₁ : Seg vNode (vmarked s.mem.data 0x300000) s.vmem.vmemList [] 0x300000 := hs.list
  have hv₂ := vmalloc_serves Image.readme (s := s.setData (vmarked s.mem.data 0x300000)) (n := 8168)
    hseg₁ (by simp) (by decide) (by decide) (by simp) (by decide)
    (hs₁.words.get (v := 0xFFFFFFF8) (by decide)) (hs₁.words.get (v := 1) (by decide)) (by decide)
    (by decide) (by decide) (by decide) (by decide)
  have hs₂ := hs₁.setData
    (words_split hs₁.words (a := 0x300000) (z := 0xFFFFFFF8) (r := round8 8168)
    (q := 0x301000) (by decide) (by decide) (by decide) (by decide))
  have hlive : 0x300014 ∈ ({0x301014, 0x300014} : Finset Nat) := by decide
  have herase : ({0x301014} : Finset Nat) = ({0x301014, 0x300014} : Finset Nat).erase 0x300014 := by
    decide
  have hx₁ : Reach (AllocStart Image.readme) (AnyStep Image.readme)
      ⟨s.setData (vmarked s.mem.data 0x300000), ∅, {0x301014}⟩ :=
    .step (i := .vfree 0x300014) hx ⟨⟨hlive, hv₁, herase⟩, rfl⟩
  exact ⟨_, .step (i := .vmalloc 8168) hx₁ ⟨by decide, ⟨_, hv₂, rfl⟩, rfl⟩,
    hcur, hs₂.mono (by decide)⟩

/-- The page behind is made a block, and the block split off is taken: its header is the
one of that page, moved by a word. -/
theorem overlap_run : ∃ s : State Flat,
    Reach (AllocStart Image.readme) (AnyStep Image.readme)
      ⟨s, ∅, {0x302010, 0x302014, 0x300014, 0x301014}⟩ ∧
    s.vmem.vmemList = 0x300000 ∧
    Words s.mem.data [(0x300000, 8168), (0x300004, 4076), (0x300008, 0),
      (0x30000C, vmemMagicAllocated), (0x300010, 0x301FFC), (0x301FFC, 0xFFFFDFFC),
      (0x302000, 0xFFFFFFF8), (0x302004, 0), (0x302008, vmemMagicAllocated),
      (0x30200C, vmemMagicAllocated)] := by
  obtain ⟨s, hx, hcur, hs⟩ := overlap_split
  have hA : vNode.holds s.mem.data ⟨0x300000, 8168, false, some 4076⟩ :=
    words_holds hs.words (by decide) (by decide) (by decide) (by decide)
  have hB : vNode.holds s.mem.data ⟨0x301000, 8, false, some 4076⟩ :=
    words_holds hs.words (by decide) (by decide) (by decide) (by decide)
  -- `vmalloc(0xFFFFFFF8)`
  have hP : vNode.holds s.mem.data ⟨0x301FFC, 0xFFFFDFFC, true, none⟩ :=
    ⟨hs.words.get (by decide), hs.words.get (by decide), fun h => (by cases h),
      fun _ h => (by cases h)⟩
  have hnextA : load32 s.mem.data (0x300000 + vNode.next) = 0x301FFC := hs.words.get (by decide)
  have hnextP : load32 s.mem.data (0x301FFC + vNode.next) = 0x301000 := hs.words.get (by decide)
  have hseg : Seg vNode s.mem.data s.vmem.vmemList [⟨0x300000, 8168, false, some 4076⟩,
      ⟨0x301FFC, 0xFFFFDFFC, true, none⟩, ⟨0x301000, 8, false, some 4076⟩] 0 := by
    rw [hs.list]
    refine ⟨rfl, by decide, hA, ?_⟩
    rw [hnextA]
    refine ⟨rfl, by decide, hP, ?_⟩
    rw [hnextP]
    exact ⟨rfl, by decide, hB, hs.words.get (v := 0) (by decide)⟩
  obtain ⟨s₁, hv₁, hd₁, hcur₁, hlist₁, -⟩ := vmalloc_page (n := 0xFFFFFFF8) hs.frames hseg
    (by simp) (by decide) (by decide) (by simp [VBlk.Fits]; decide)
    (by decide) (by rw [hcur]; decide)
    hs.free (by decide)
  simp only [hcur] at hv₁ hd₁
  have hlist₁ : s₁.vmem.vmemList = 0x300000 := hlist₁.trans hs.list
  have hw₁ : Words s₁.mem.data [(0x300000, 8168), (0x300004, 4076), (0x300008, 0),
      (0x30000C, vmemMagicAllocated), (0x300010, 0x301FFC), (0x301FFC, 0xFFFFDFFC),
      (0x302000, 0xFFFFFFF8), (0x302004, 4076), (0x30200C, vmemMagicAllocated)] := by
    rw [hd₁]
    exact (words_vlinked (words_newHeader hs.words 0x302000 (by decide) (by decide)) (by decide)
      (by decide)).mono (by decide)
  -- `vmalloc(0xFFFFDFF8)`, served by the block that was split off
  have hA₁ : vNode.holds s₁.mem.data ⟨0x300000, 8168, false, some 4076⟩ :=
    words_holds hw₁ (by decide) (by decide) (by decide) (by decide)
  have hseg₁ :
      Seg vNode s₁.mem.data s₁.vmem.vmemList [⟨0x300000, 8168, false, some 4076⟩] 0x301FFC := by
    rw [hlist₁]
    exact ⟨rfl, by decide, hA₁, hw₁.get (by decide)⟩
  have hv₂ := vmalloc_serves Image.readme (n := 0xFFFFDFF8) hseg₁ (by simp) (by decide) (by decide)
    (by simp [VBlk.Fits]) (by decide) (hw₁.get (v := 0xFFFFDFFC) (by decide))
    (hw₁.get (v := 4076) (by decide)) (by decide) (by decide) (by decide) (by decide) (by decide)
  have hw₂ := (words_whole hw₁ 0x301FFC (z := 0xFFFFDFFC) (r := round8 0xFFFFDFF8) (by decide))
  have hx₁ : Reach (AllocStart Image.readme) (AnyStep Image.readme)
      ⟨s₁, ∅, {0x302014, 0x300014, 0x301014}⟩ :=
    .step (i := .vmalloc 0xFFFFFFF8) hx ⟨by decide, ⟨_, hv₁, rfl⟩, rfl⟩
  exact ⟨_, .step (i := .vmalloc 0xFFFFDFF8) hx₁ ⟨by decide, ⟨_, hv₂, rfl⟩, rfl⟩, hlist₁,
    hw₂.mono (by decide)⟩

theorem vfree_unmarked {p g : Nat} (hp : 8 ≤ p) (hlim : p < 2 ^ 32)
    (hmagic : load32 s.mem.data (p - 8) = g) (hfreed : g ≠ vmemMagicFreed)
    (hused : g ≠ vmemMagicAllocated) :
    vfree p s = .error (.panic "vfree: invalid memory block at %x (magic: %x)\n" [p, g]) s := by
  unfold vfree
  simp only [show p ≠ 0 by omega, ↓reduceIte]
  rw [bind_of_ok (vfree_reads hp hlim), hmagic]
  simp only [hfreed, hused, ↓reduceIte, ne_eq, not_false_eq_true]
  rfl

end Overlap

/-- `vfree(0x302010)`, `vfree(0x302014)` and `vfree(0x302010)` again: the second call has
overwritten the mark, and the third one takes the block for a corrupt one. -/
theorem double_free_missed : ∃ (y : AllocSys) (s₁ s₂ : State Flat),
    Reach (AllocStart Image.readme) (AnyStep Image.readme) y ∧ 0x302010 ∈ y.vlive ∧
    0x302014 ∈ y.vlive ∧ vfree 0x302010 y.st = .ok () s₁ ∧ vfree 0x302014 s₁ = .ok () s₂ ∧
    vfree 0x302010 s₂ =
      .error (.panic "vfree: invalid memory block at %x (magic: %x)\n" [0x302010, 1]) s₂ ∧
    ¬ VfreeCaught Image.readme y 0x302010 := by
  obtain ⟨s, hx, hlist, hw⟩ := overlap_run
  have hw₁ := words_vmarked hw 0x301FFC
  have hA₁ : vNode.holds (vmarked s.mem.data 0x301FFC) ⟨0x300000, 8168, false, some 4076⟩ :=
    words_holds hw₁ (by decide) (by decide) (by decide) (by decide)
  have hv₁ := vfree_alone (hw.get (by decide)) (by decide) hlist hA₁ rfl (by decide)
    (hw₁.get (v := 0x301FFC) (by decide)) (by decide) (.inl rfl)
  have hv₁ : vfree 0x302010 s = .ok () (s.setData (vmarked s.mem.data 0x301FFC)) := hv₁
  -- the mark of `0x302014` starts with the word `1` where that of `0x302010` is
  have hw₂ := words_vmarked hw₁ 0x302000
  have hA₂ : vNode.holds (vmarked (vmarked s.mem.data 0x301FFC) 0x302000)
      ⟨0x300000, 8168, false, some 4076⟩ :=
    words_holds hw₂ (by decide) (by decide) (by decide) (by decide)
  have hv₂ := vfree_alone (s := s.setData (vmarked s.mem.data 0x301FFC))
    (x := ⟨0x300000, 8168, false, some 4076⟩) (hw₁.get (by decide)) (by decide) hlist hA₂ rfl
    (by decide) (hw₂.get (v := 0x301FFC) (by decide)) (by decide) (.inl rfl)
  have hv₃ := vfree_unmarked (p := 0x302010)
    (s := (s.setData (vmarked s.mem.data 0x301FFC)).setData
      (vmarked (vmarked s.mem.data 0x301FFC) 0x302000))
    (by decide) (by decide) (hw₂.get (v := 1) (by decide)) (by decide) (by decide)
  have hp : 0x302010 ∈ ({0x302010, 0x302014, 0x300014, 0x301014} : Finset Nat) := by decide
  have hq : 0x302014 ∈ ({0x302010, 0x302014, 0x300014, 0x301014} : Finset Nat) := by decide
  have hq' : 0x302014 ∈ ({0x302010, 0x302014, 0x300014, 0x301014} : Finset Nat).erase 0x302010 := by
    decide
  refine ⟨_, _, _, hx, hp, hq, hv₁, hv₂, hv₃, ?_⟩
  rintro ⟨⟨s', klive', vlive'⟩, ⟨⟨-, hr, hlive⟩, hkl⟩, hall⟩
  cases hv₁.symm.trans hr
  have hlive : vlive' = _ := hlive
  subst hlive
  have hcaught := hall [(.vfree 0x302014, ⟨_, klive', _⟩)] ⟨⟨⟨hq', hv₂, rfl⟩, rfl⟩, trivial⟩
    ⟨fun _ h => (by cases h), trivial⟩
  injection hcaught.symm.trans hv₃ with htrap _
  injection htrap with hfmt _
  exact absurd hfmt (by decide)

end Kfs
