import Kfs.MemoryInv
import Kfs.Lib.Runs
import Mathlib.Data.Finset.Image
import Mathlib.Algebra.BigOperators.Group.List.Basic

/-!
# Runs of the kernel heap

A run starts after `kheap_init` and makes calls of `kmalloc`, calls of `kfree`
on live pointers, and client writes inside live payloads. `heapStep_edit` says
once what a step does to the list of blocks, to `heap_used` and to memory; the
theorems about runs follow from it by cases.

The statements talk about memory itself: `Blocks m p hs` lists the headers met
by following `next` from `p`.
-/

namespace Kfs

open Kfs.Lib

/-! ## Headers in memory -/

/-- The words of a `block_header_t`, without `next`. -/
structure Header where
  addr : Nat
  size : Nat
  free : Nat
  magic : Nat
  deriving DecidableEq, Repr

def headerAt (m : Mem) (a : Nat) : Header := ⟨a, load32 m a, load32 m (a + 4), load32 m (a + 8)⟩

/-- Following `next` from `p` meets the headers `hs` and then null. -/
def Blocks (m : Mem) (p : Nat) (hs : List Header) : Prop :=
  ∃ as, Follows m 12 p as ∧ hs = as.map (headerAt m)

theorem Blocks.unique {m : Mem} {p : Nat} {hs hs' : List Header} (h : Blocks m p hs)
    (h' : Blocks m p hs') : hs = hs' := by
  obtain ⟨as, ha, rfl⟩ := h
  obtain ⟨bs, hb, rfl⟩ := h'
  rw [ha.unique hb]

/-- The headers of `bs` in memory `m`. -/
def headersOf (m : Mem) (bs : List Blk) : List Header := bs.map fun b => headerAt m b.addr

theorem seg_blocks {m : Mem} {p : Nat} {bs : List Blk} (h : Seg hdrNode m p bs 0) :
    Blocks m p (headersOf m bs) := ⟨_, h.follows, by rw [List.map_map]; rfl⟩

theorem HeapInv.blocks {s : State Flat} {bs : List Blk} (h : HeapInv s bs) :
    Blocks s.mem.data s.kheap.freeList (headersOf s.mem.data bs) := by
  rw [h.start]
  exact seg_blocks h.list

theorem HeapInv.blocks_eq {s : State Flat} {bs : List Blk} (h : HeapInv s bs) {hs : List Header}
    (hb : Blocks s.mem.data s.kheap.freeList hs) : hs = headersOf s.mem.data bs :=
  hb.unique h.blocks

section Header

variable {s : State Flat} {bs : List Blk} {b : Blk}

theorem HeapInv.header_size (h : HeapInv s bs) (hb : b ∈ bs) :
    (headerAt s.mem.data b.addr).size = b.size := (h.list.holds b hb).1

theorem HeapInv.header_free (h : HeapInv s bs) (hb : b ∈ bs) :
    (headerAt s.mem.data b.addr).free = if b.free then 1 else 0 := (h.list.holds b hb).2.1

theorem HeapInv.header_used (h : HeapInv s bs) (hb : b ∈ bs) :
    (headerAt s.mem.data b.addr).free = 0 ↔ b.free = false := by
  rw [h.header_free hb]
  cases b.free <;> simp

theorem HeapInv.header_magic (h : HeapInv s bs) (hb : b ∈ bs) (hf : b.free = false) :
    (headerAt s.mem.data b.addr).magic = magicAllocated := (h.list.holds b hb).2.2 hf

end Header

/-! ## Steps -/

/-- The heap's state and the pointers that clients hold. -/
structure HeapSys where
  st : State Flat
  live : Finset Nat

/-- What a client can do. -/
inductive HeapOp where
  | kmalloc (n : Nat)
  | kfree (p : Nat)
  /-- Write `v` to address `a` of the payload at `p`. -/
  | write (p a : Nat) (v : BitVec 8)

/-- The recorded size of the block whose payload is at `p`. -/
def HeapSys.sizeOf (x : HeapSys) (p : Nat) : Nat := load32 x.st.mem.data (p - 16)

def HeapStep (x : HeapSys) : HeapOp → HeapSys → Prop
  | .kmalloc n, y => n < 2 ^ 32 ∧ ∃ p, kmalloc n x.st = .ok p y.st ∧
      y.live = if p = 0 then x.live else insert p x.live
  | .kfree p, y => p ∈ x.live ∧ kfree p x.st = .ok () y.st ∧ y.live = x.live.erase p
  | .write p a v, y => p ∈ x.live ∧ p ≤ a ∧ a < p + x.sizeOf p ∧
      y.st = x.st.setData (storeByte x.st.mem.data a v) ∧ y.live = x.live

def HeapStart (x : HeapSys) : Prop :=
  ∃ img s, kheapInit img s = .ok () x.st ∧ x.live = ∅

/-- The live pointers are the payloads of the used blocks. -/
def LiveOf (live : Finset Nat) (bs : List Blk) : Prop :=
  ∀ p, p ∈ live ↔ ∃ b ∈ bs, b.free = false ∧ p = b.addr + 16

/-- What one step does to the blocks `bs`. -/
inductive HeapEdit (s s' : State Flat) : List Blk → HeapOp → List Blk → Prop where
  | nothing {bs : List Blk} : s' = s → HeapEdit s s' bs (.kmalloc 0) bs
  | serve {pre post : List Blk} {b : Blk} {n : Nat} : n ≠ 0 →
      (∀ c ∈ pre, ¬ c.Fits (round8 n)) → b.Fits (round8 n) →
      s'.kheap.heapUsed = add32 s.kheap.heapUsed (add32 (round8 n) 16) →
      SameOff (fun x => b.addr ≤ x ∧ x < b.addr + 16 + b.size) s.mem.data s'.mem.data →
      HeapEdit s s' (pre ++ b :: post) (.kmalloc n) (pre ++ b.serve 16 16 (round8 n) ++ post)
  | release {pre post : List Blk} {b : Blk} : b.free = false →
      s'.kheap.heapUsed = sub32 s.kheap.heapUsed (b.size + 16) →
      SameOff (InHeader (pre ++ b :: post)) s.mem.data s'.mem.data →
      HeapEdit s s' (pre ++ b :: post) (.kfree (b.addr + 16))
        (coalesce 16 (pre ++ b.release :: post))
  | write {bs : List Blk} {b : Blk} {a : Nat} {v : BitVec 8} : b ∈ bs → b.free = false →
      b.addr + 16 ≤ a → a < b.addr + 16 + b.size →
      s' = s.setData (storeByte s.mem.data a v) →
      HeapEdit s s' bs (.write (b.addr + 16) a v) bs

theorem HeapRep.write {s : State Flat} {bs : List Blk} (h : HeapRep s bs) {b : Blk} (hb : b ∈ bs)
    {a : Nat} {v : BitVec 8} (h1 : b.addr + 16 ≤ a) (h2 : a < b.addr + 16 + b.size) :
    HeapRep (s.setData (storeByte s.mem.data a v)) bs where
  base := h.base
  size := h.size
  start := h.start
  list := by
    refine h.list.frame fun c hc x hx1 hx2 => storeByte_other ?_
    have hx1 : c.addr ≤ x := hx1
    have hx2 : x < c.addr + 16 := hx2
    rcases h.tiled.sep hb hc with h3 | h3 | h3
    · subst h3
      omega
    · simp only [headerSize] at h3
      omega
    · simp only [headerSize] at h3
      omega
  tiled := h.tiled
  align := h.align

theorem HeapInv.write {s : State Flat} {bs : List Blk} (h : HeapInv s bs) {b : Blk} (hb : b ∈ bs)
    {a : Nat} {v : BitVec 8} (h1 : b.addr + 16 ≤ a) (h2 : a < b.addr + 16 + b.size) :
    HeapInv (s.setData (storeByte s.mem.data a v)) bs := (h.rep.write hb h1 h2).inv h.coalesced

theorem HeapRep.store {s : State Flat} {bs : List Blk} (h : HeapRep s bs) {b : Blk} (hb : b ∈ bs)
    {a v : Nat} (h1 : b.addr + 16 ≤ a) (h2 : a + 4 ≤ b.addr + 16 + b.size) :
    HeapRep (s.setData (store32 s.mem.data a v)) bs :=
  (((h.write hb h1 (by omega)).write hb (a := a + 1) (by omega) (by omega)).write hb (a := a + 2)
    (by omega) (by omega)).write hb (a := a + 3) (by omega) (by omega)

theorem LiveOf.serve {live : Finset Nat} {pre post : List Blk} {b : Blk} {r : Nat}
    (h : LiveOf live (pre ++ b :: post)) (hb : b.free = true) :
    LiveOf (insert (b.addr + 16) live) (pre ++ b.serve 16 16 r ++ post) := by
  have hserve : ∀ p, (∃ c ∈ b.serve 16 16 r, c.free = false ∧ p = c.addr + 16) ↔
    p = b.addr + 16 := by
    intro p
    unfold Blk.serve
    split <;> simp
  intro p
  rw [Finset.mem_insert, h p, ← hserve p]
  simp only [List.mem_append, List.mem_cons]
  constructor
  · rintro (⟨c, hc, h1⟩ | ⟨c, hc | hc | hc, h1, h2⟩)
    · exact ⟨c, .inl (.inr hc), h1⟩
    · exact ⟨c, .inl (.inl hc), h1, h2⟩
    · rw [hc, hb] at h1
      cases h1
    · exact ⟨c, .inr hc, h1, h2⟩
  · rintro ⟨c, (hc | hc) | hc, h1⟩
    · exact .inr ⟨c, .inl hc, h1⟩
    · exact .inl ⟨c, hc, h1⟩
    · exact .inr ⟨c, .inr (.inr hc), h1⟩

theorem LiveOf.release {live : Finset Nat} {pre post : List Blk} {b : Blk} {a e : Nat}
    (h : LiveOf live (pre ++ b :: post)) (ht : Tiled 16 a (pre ++ b :: post) e) :
    LiveOf (live.erase (b.addr + 16)) (coalesce 16 (pre ++ b.release :: post)) := by
  intro p
  rw [Finset.mem_erase, h p]
  constructor
  · rintro ⟨hp, c, hc, h1, h2⟩
    refine ⟨c, (mem_coalesce_used h1).mpr (mem_replaced_one _ hc ?_), h1, h2⟩
    rintro rfl
    exact hp h2
  · rintro ⟨c, hc, h1, h2⟩
    have hc := (mem_coalesce_used h1).mp hc
    simp only [List.mem_append, List.mem_cons] at hc
    rcases hc with hc | hc | hc
    · have := pairwise_split ht.apart (c := c) (by simp [hc])
      exact ⟨by omega, c, by simp [hc], h1, h2⟩
    · rw [hc] at h1
      cases h1
    · have := pairwise_split ht.apart (c := c) (by simp [hc])
      exact ⟨by omega, c, by simp [hc], h1, h2⟩

/-- **What a step can do.** -/
theorem heapStep_edit {x y : HeapSys} {op : HeapOp} {bs : List Blk} (h : HeapInv x.st bs)
    (hl : LiveOf x.live bs) (hs : HeapStep x op y) :
    ∃ bs', HeapEdit x.st y.st bs op bs' ∧ HeapInv y.st bs' ∧ LiveOf y.live bs' := by
  cases op with
  | kmalloc n =>
    obtain ⟨-, p, hr, hlive⟩ := hs
    by_cases hn : n = 0
    · subst hn
      have hr : EStateM.Result.ok 0 x.st = .ok p y.st := hr
      injection hr with h1 h2
      rw [if_pos h1.symm] at hlive
      exact ⟨bs, .nothing h2.symm, h2 ▸ h, hlive ▸ hl⟩
    · rcases first_such (Blk.Fits (round8 n)) bs with hfull | ⟨pre, b, post, rfl, hpre, hb⟩
      · rw [kmalloc_full h.rep hn hfull] at hr
        cases hr
      · obtain ⟨s', hk, hinv, hused, hsame, -⟩ := kmalloc_hit h hn hpre hb
        rw [hk] at hr
        injection hr with h1 h2
        subst h2
        rw [← h1, if_neg (by omega)] at hlive
        exact ⟨_, .serve hn hpre hb hused hsame, hinv, hlive ▸ hl.serve hb.1⟩
  | kfree p =>
    obtain ⟨hp, hr, hlive⟩ := hs
    obtain ⟨b, hb, hbf, rfl⟩ := (hl p).mp hp
    obtain ⟨pre, post, rfl⟩ := List.append_of_mem hb
    obtain ⟨s', hk, hinv, hused, hsame, -⟩ := kfree_spec h hbf
    rw [hk] at hr
    injection hr with _ h2
    subst h2
    exact ⟨_, .release hbf hused hsame, hinv, hlive ▸ hl.release h.tiled⟩
  | write p a v =>
    obtain ⟨hp, h1, h2, hst, hlive⟩ := hs
    obtain ⟨b, hb, hbf, rfl⟩ := (hl p).mp hp
    have hsize : x.sizeOf (b.addr + 16) = b.size := h.header_size hb
    rw [hsize] at h2
    exact ⟨bs, .write hb hbf h1 h2 hst, hst ▸ h.write hb h1 h2, hlive ▸ hl⟩

/-- **The run invariant**: memory represents some block list whose used blocks are
the live pointers. -/
def HeapOk (x : HeapSys) : Prop := ∃ bs, HeapInv x.st bs ∧ LiveOf x.live bs

theorem HeapStart.inv {x : HeapSys} (h : HeapStart x) :
    HeapInv x.st [wholeHeap] ∧ LiveOf x.live [wholeHeap] ∧ x.st.kheap.heapUsed = 0 := by
  obtain ⟨img, s, hr, hlive⟩ := h
  obtain ⟨hinv, hused⟩ := kheapInit_inv hr
  refine ⟨hinv, fun p => ?_, hused⟩
  rw [hlive]
  simp [wholeHeap]

theorem HeapStep.ok {x y : HeapSys} {op : HeapOp} (h : HeapOk x) (hs : HeapStep x op y) :
    HeapOk y := by
  obtain ⟨bs, hinv, hl⟩ := h
  obtain ⟨bs', -, hinv', hl'⟩ := heapStep_edit hinv hl hs
  exact ⟨bs', hinv', hl'⟩

theorem heapReach_ok {x : HeapSys} (h : Reach HeapStart HeapStep x) : HeapOk x :=
  Reach.inv (fun _ hs => ⟨_, hs.inv.1, hs.inv.2.1⟩) (fun _ _ _ hI hs => hs.ok hI) h

/-! ## What the list looks like -/

theorem headersOf_mem {m : Mem} {bs : List Blk} {h : Header} :
    h ∈ headersOf m bs ↔ ∃ b ∈ bs, headerAt m b.addr = h := List.mem_map

theorem Tiled.headers_touch {m : Mem} {a e : Nat} {bs : List Blk} (ht : Tiled 16 a bs e)
    (hsize : ∀ b ∈ bs, load32 m b.addr = b.size) :
    (headersOf m bs).IsChain fun b c => b.addr + 16 + b.size = c.addr := by
  induction bs generalizing a with
  | nil => exact .nil
  | cons b bs ih =>
    have htail := ih ht.2 fun c hc => hsize c (List.mem_cons_of_mem _ hc)
    cases bs with
    | nil => exact .singleton _
    | cons c cs =>
      refine .cons_cons ?_ htail
      show b.addr + 16 + load32 m b.addr = c.addr
      rw [hsize b List.mem_cons_self]
      exact Tiled.touch (show Tiled 16 a ([] ++ b :: c :: cs) e from ht)

theorem Tiled.headers_last {m : Mem} {a e : Nat} {bs : List Blk} (ht : Tiled 16 a bs e)
    (hsize : ∀ b ∈ bs, load32 m b.addr = b.size) {h : Header}
    (hh : (headersOf m bs).getLast? = some h) : h.addr + 16 + h.size = e := by
  unfold headersOf at hh
  rw [List.getLast?_map, Option.map_eq_some_iff] at hh
  obtain ⟨b, hb, rfl⟩ := hh
  obtain ⟨pre, rfl⟩ := List.getLast?_eq_some_iff.mp hb
  obtain ⟨d, -, h1, h2⟩ := tiled_append.mp ht
  show b.addr + 16 + load32 m b.addr = e
  rw [hsize b (by simp), h1]
  exact h2

theorem heapStart_boot (img : Image) (m : Flat) :
    ∃ s, HeapStart ⟨s, ∅⟩ ∧ Booted img s := by
  obtain ⟨s, hr, hboot⟩ := memoryInit_spec img m
  unfold memoryInit at hr
  obtain ⟨_, s₁, -, hr⟩ := bind_eq_ok.mp hr
  obtain ⟨_, s₂, -, hr⟩ := bind_eq_ok.mp hr
  obtain ⟨_, s₃, -, hr⟩ := bind_eq_ok.mp hr
  exact ⟨s, ⟨img, s₃, hr, rfl⟩, hboot⟩

theorem heapRun_kmalloc :
    ∃ x, Reach HeapStart HeapStep x ∧ x.live = {0x200010} ∧
      HeapInv x.st [⟨0x200000, 24, false⟩, ⟨0x200028, 0xFFFC8, true⟩] := by
  obtain ⟨s, hstart, hboot⟩ := heapStart_boot Image.readme Flat.blank
  obtain ⟨s', hk, hinv, -, -⟩ := kmalloc_hit (n := 20)
    (show HeapInv s ([] ++ wholeHeap :: []) from hboot.heap) (by decide) (by simp) (by decide)
  refine ⟨⟨s', {0x200010}⟩, .step (i := .kmalloc 20) (.init hstart) ⟨by decide, _, hk, rfl⟩,
    rfl, ?_⟩
  exact hinv

theorem heapRun_two : ∃ x, Reach HeapStart HeapStep x ∧ x.live = {0x200010, 0x200038} ∧
    HeapInv x.st [⟨0x200000, 24, false⟩, ⟨0x200028, 104, false⟩, ⟨0x2000A0, 0xFFF50, true⟩] := by
  obtain ⟨x, hx, hlive, hinv⟩ := heapRun_kmalloc
  have hpre : ∀ c ∈ [⟨0x200000, 24, false⟩], ¬ Blk.Fits (round8 100) c := by simp [Blk.Fits]
  obtain ⟨s', hk, hinv', -⟩ := kmalloc_hit (n := 100)
    (show HeapInv x.st ([⟨0x200000, 24, false⟩] ++ ⟨0x200028, 0xFFFC8, true⟩ :: []) from hinv)
    (by decide) hpre (by decide)
  refine ⟨⟨s', insert 0x200038 x.live⟩, .step (i := .kmalloc 100) hx ⟨by decide, _, hk, rfl⟩,
    ?_, hinv'⟩
  rw [hlive]
  exact Finset.pair_comm _ _

/-! ## The representation -/

theorem serve_first {b : Blk} {r : Nat} (hb : b.Fits r) :
    ∃ c ∈ b.serve 16 16 r, c.addr = b.addr ∧ r ≤ c.size ∧ c.size ≤ b.size := by
  have hsize := hb.2
  unfold Blk.serve
  split
  · exact ⟨_, List.mem_cons_self, rfl, Nat.le_refl r, hsize⟩
  · exact ⟨_, List.mem_cons_self, rfl, hsize, Nat.le_refl _⟩

/-- **What `kmalloc` hands out is new**: it was not live, and its block lies apart from those
that are. -/
theorem HeapInv.kmalloc_new {s s' : State Flat} {bs : List Blk} {live : Finset Nat} {n p : Nat}
    (h : HeapInv s bs) (hl : LiveOf live bs) (hr : kmalloc n s = .ok p s') :
    p ∉ live ∧ (n ≠ 0 → ∀ q ∈ live, p + load32 s'.mem.data (p - 16) + 16 ≤ q ∨
      q + load32 s.mem.data (q - 16) + 16 ≤ p) := by
  by_cases hn : n = 0
  · subst hn
    cases hr
    refine ⟨fun hp => ?_, fun h0 => absurd rfl h0⟩
    obtain ⟨b, -, -, hb⟩ := (hl 0).mp hp
    omega
  rcases first_such (Blk.Fits (round8 n)) bs with hfull | ⟨pre, b, post, rfl, hpre, hb⟩
  · rw [kmalloc_full h.rep hn hfull] at hr
    cases hr
  obtain ⟨s₁, hk, hinv', -⟩ := kmalloc_hit h hn hpre hb
  rw [hk] at hr
  cases hr
  -- a live block is another one than the free block that was found
  have hapart : ∀ q ∈ live, b.addr + 16 + b.size + 16 ≤ q ∨
      q + load32 s.mem.data (q - 16) + 16 ≤ b.addr + 16 := by
    intro q hq
    obtain ⟨c, hc, hcf, rfl⟩ := (hl q).mp hq
    rw [Nat.add_sub_cancel, show load32 s.mem.data c.addr = c.size from h.header_size hc]
    rcases h.tiled.sep hc (c := b) (by simp) with rfl | hsep | hsep
    · rw [hb.1] at hcf
      cases hcf
    · simp only [headerSize] at hsep
      omega
    · simp only [headerSize] at hsep
      omega
  refine ⟨fun hp => ?_, fun _ q hq => ?_⟩
  · have := hapart _ hp
    omega
  · obtain ⟨c, hc, haddr, -, hhi⟩ := serve_first hb
    have hsize : load32 s'.mem.data c.addr = c.size := hinv'.header_size (by simp [hc])
    rw [haddr] at hsize
    have := hapart q hq
    rw [Nat.add_sub_cancel, hsize]
    omega

/-- **The representation invariant of the kernel heap.** In every reachable state the
list from `free_list` starts at `KHEAP_START`, ascends, tiles the heap region
exactly, has sizes that are multiples of 8, and its used blocks are the live
pointers, each with its magic. What `kmalloc` returns then was not live. -/
theorem heap_representation {x : HeapSys} (h : Reach HeapStart HeapStep x) :
    ∃ hs, Blocks x.st.mem.data x.st.kheap.freeList hs ∧
      (hs.head?.map Header.addr = some kheapStart) ∧
      hs.Pairwise (fun b c => b.addr < c.addr) ∧
      hs.IsChain (fun b c => b.addr + 16 + b.size = c.addr) ∧
      (∀ b, hs.getLast? = some b → b.addr + 16 + b.size = kheapStart + kheapSize) ∧
      (∀ b ∈ hs, b.size % 8 = 0) ∧
      (∀ p, p ∈ x.live ↔ ∃ b ∈ hs, b.free = 0 ∧ p = b.addr + 16) ∧
      (∀ b ∈ hs, b.free = 0 → b.magic = magicAllocated) ∧
      ∀ n p s, kmalloc n x.st = .ok p s → p ∉ x.live := by
  obtain ⟨bs, hinv, hl⟩ := heapReach_ok h
  have hsize : ∀ b ∈ bs, load32 x.st.mem.data b.addr = b.size := fun b hb => hinv.header_size hb
  refine ⟨_, hinv.blocks, ?_, ?_, Tiled.headers_touch hinv.tiled hsize,
    fun b hb => Tiled.headers_last hinv.tiled hsize hb, fun b hb => ?_,
      fun p => ?_, fun b hb hf => ?_,
    fun n p s hr => (hinv.kmalloc_new hl hr).1⟩
  · cases bs with
    | nil =>
      have := hinv.tiled
      exact absurd this (by simp [Tiled])
    | cons b bs =>
      show some b.addr = some kheapStart
      rw [hinv.tiled.1]
  · refine List.pairwise_map.mpr (hinv.tiled.apart.imp fun {b c} hbc => ?_)
    show b.addr < c.addr
    simp only [headerSize] at hbc
    omega
  · obtain ⟨c, hc, rfl⟩ := headersOf_mem.mp hb
    rw [hinv.header_size hc]
    exact hinv.align c hc
  · rw [hl p]
    constructor
    · rintro ⟨b, hb, hf, hp⟩
      exact ⟨_, headersOf_mem.mpr ⟨b, hb, rfl⟩, (hinv.header_used hb).mpr hf, hp⟩
    · rintro ⟨b, hb, hf, hp⟩
      obtain ⟨c, hc, rfl⟩ := headersOf_mem.mp hb
      exact ⟨c, hc, (hinv.header_used hc).mp hf, hp⟩
  · obtain ⟨c, hc, rfl⟩ := headersOf_mem.mp hb
    exact hinv.header_magic hc ((hinv.header_used hc).mp hf)

/-- The representation after two allocations. -/
theorem heap_representation_kmalloc :
    ∃ x, Reach HeapStart HeapStep x ∧ x.live = {0x200010, 0x200038} ∧
      ∃ hs, Blocks x.st.mem.data x.st.kheap.freeList hs ∧
        (hs.head?.map Header.addr = some kheapStart) ∧
        (∀ p, p ∈ x.live ↔ ∃ b ∈ hs, b.free = 0 ∧ p = b.addr + 16) ∧
        ∀ n p s, kmalloc n x.st = .ok p s → p ∉ x.live := by
  obtain ⟨x, hx, hlive, -⟩ := heapRun_two
  obtain ⟨hs, h1, h2, -, -, -, -, h3, -, h4⟩ := heap_representation hx
  exact ⟨x, hx, hlive, hs, h1, h2, h3, h4⟩

/-! ## What clients get -/

/-- A used block stays on the list until it is freed. -/
theorem HeapEdit.block_kept {s s' : State Flat} {bs bs' : List Blk} {op : HeapOp}
    (he : HeapEdit s s' bs op bs') {c : Blk} (hc : c ∈ bs) (hused : c.free = false)
    (hop : op ≠ .kfree (c.addr + 16)) : c ∈ bs' := by
  cases he with
  | nothing _ => exact hc
  | @serve pre post b n _ _ hfit _ _ =>
    apply mem_replaced _ hc
    rintro rfl
    rw [hfit.1] at hused
    cases hused
  | @release pre post b _ _ _ =>
    apply (mem_coalesce_used hused).mpr
    apply mem_replaced_one _ hc
    rintro rfl
    exact hop rfl
  | write _ _ _ _ _ => exact hc

/-- Bytes of a live payload that a step on another block leaves alone. -/
theorem HeapEdit.payload_kept {s s' : State Flat} {bs bs' : List Blk} {op : HeapOp}
    (he : HeapEdit s s' bs op bs') {a e : Nat} (ht : Tiled 16 a bs e) {c : Blk} (hc : c ∈ bs)
    (hcf : c.free = false)
    (hop : (∃ n, op = .kmalloc n) ∨ ∃ q, op = .kfree q ∧ q ≠ c.addr + 16) :
    c ∈ bs' ∧ ∀ x, c.addr + 16 ≤ x → x < c.addr + 16 + c.size → s'.mem.data x = s.mem.data x := by
  have hother : op ≠ .kfree (c.addr + 16) := by
    rintro rfl
    rcases hop with ⟨n, hop⟩ | ⟨q, hop, hq⟩
    · cases hop
    · injection hop with hop
      exact hq hop.symm
  refine ⟨he.block_kept hc hcf hother, fun x h1 h2 => ?_⟩
  cases he with
  | nothing hs => rw [hs]
  | @serve pre post b n hn hpre hb hused hsame =>
    apply hsame
    rcases ht.sep hc (c := b) (by simp) with h3 | h3 | h3
    · rw [h3, hb.1] at hcf
      cases hcf
    · omega
    · omega
  | @release pre post b hbf hused hsame =>
    apply hsame
    -- no header lies inside a payload
    rintro ⟨d, hd, h3, h4⟩
    rcases ht.sep hc hd with h5 | h5 | h5
    · subst h5
      omega
    · omega
    · omega
  | write hb hbf h3 h4 hs =>
    rcases hop with ⟨n, hop⟩ | ⟨q, hop, -⟩ <;> cases hop

/-- **What `kmalloc` guarantees to its clients.** Live payloads are 8-byte aligned,
inside the heap, apart from each other and from every header; no `kmalloc`
and no `kfree` of another block changes a byte of one, or its size; and the block that a
`kmalloc` returns is new, and apart from them. -/
theorem heap_payloads {x : HeapSys} (h : Reach HeapStart HeapStep x) :
    (∀ p ∈ x.live, p % 8 = 0 ∧ 0x200010 ≤ p ∧ p + x.sizeOf p ≤ 0x300000) ∧
    (∀ p ∈ x.live, ∀ q ∈ x.live, p ≠ q → p + x.sizeOf p ≤ q ∨ q + x.sizeOf q ≤ p) ∧
    (∀ hs, Blocks x.st.mem.data x.st.kheap.freeList hs → ∀ b ∈ hs, ∀ p ∈ x.live,
      b.addr + 16 ≤ p ∨ p + x.sizeOf p ≤ b.addr) ∧
    (∀ op y, HeapStep x op y → ∀ p ∈ x.live,
      ((∃ n, op = .kmalloc n) ∨ ∃ q, op = .kfree q ∧ q ≠ p) →
      p ∈ y.live ∧ y.sizeOf p = x.sizeOf p ∧
        ∀ a, p ≤ a → a < p + x.sizeOf p → y.st.mem.data a = x.st.mem.data a) ∧
    ∀ n p y, n ≠ 0 → HeapStep x (.kmalloc n) y → kmalloc n x.st = .ok p y.st → p ∉ x.live ∧
      ∀ q ∈ x.live, p + y.sizeOf p + 16 ≤ q ∨ q + x.sizeOf q + 16 ≤ p := by
  obtain ⟨bs, hinv, hl⟩ := heapReach_ok h
  have hsize : ∀ b ∈ bs, x.sizeOf (b.addr + 16) = b.size := fun b hb => hinv.header_size hb
  refine ⟨fun p hp => ?_, fun p hp q hq hpq => ?_, fun hs hblk b hb p hp => ?_,
    fun op y hstep p hp hop => ?_, fun n p y hn _ hr => ?_⟩
  · obtain ⟨b, hb, -, rfl⟩ := (hl p).mp hp
    have := hinv.bounds hb
    have := hinv.rep.addr_mod hb
    rw [hsize b hb]
    omega
  · obtain ⟨b, hb, -, rfl⟩ := (hl p).mp hp
    obtain ⟨c, hc, -, rfl⟩ := (hl q).mp hq
    rw [hsize b hb, hsize c hc]
    rcases hinv.tiled.sep hb hc with h1 | h1 | h1
    · exact absurd (by rw [h1]) hpq
    · simp only [headerSize] at h1
      omega
    · simp only [headerSize] at h1
      omega
  · rw [hinv.blocks_eq hblk] at hb
    obtain ⟨c, hc, rfl⟩ := headersOf_mem.mp hb
    obtain ⟨d, hd, -, rfl⟩ := (hl p).mp hp
    rw [hsize d hd]
    show c.addr + 16 ≤ d.addr + 16 ∨ d.addr + 16 + d.size ≤ c.addr
    rcases hinv.tiled.sep hd hc with h1 | h1 | h1
    · exact .inl (by rw [h1])
    · exact .inr h1
    · simp only [headerSize] at h1
      omega
  · obtain ⟨c, hc, hcf, rfl⟩ := (hl p).mp hp
    obtain ⟨bs', he, hinv', hl'⟩ := heapStep_edit hinv hl hstep
    obtain ⟨hc', hsame⟩ := he.payload_kept hinv.tiled hc hcf hop
    rw [hsize c hc]
    exact ⟨(hl' _).mpr ⟨c, hc', hcf, rfl⟩, hinv'.header_size hc', hsame⟩
  · obtain ⟨hnew, hapart⟩ := hinv.kmalloc_new hl hr
    exact ⟨hnew, hapart hn⟩

/-- The guarantees after two allocations: freeing the second leaves the payload of the first. -/
theorem heap_payloads_kmalloc :
    ∃ x, Reach HeapStart HeapStep x ∧ x.live = {0x200010, 0x200038} ∧ x.sizeOf 0x200010 = 24 ∧
      ∀ y, HeapStep x (.kfree 0x200038) y →
        ∀ a, 0x200010 ≤ a → a < 0x200010 + 24 → y.st.mem.data a = x.st.mem.data a := by
  obtain ⟨x, hx, hlive, hinv⟩ := heapRun_two
  have hmem : 0x200010 ∈ x.live := by rw [hlive]; simp
  have hsize : x.sizeOf 0x200010 = 24 := hinv.header_size (b := ⟨0x200000, 24, false⟩) (by simp)
  refine ⟨x, hx, hlive, hsize, fun y hs a h1 h2 => ?_⟩
  obtain ⟨-, -, hsame⟩ := (heap_payloads hx).2.2.2.1 _ y hs _ hmem (.inr ⟨_, rfl, by decide⟩)
  exact hsame a h1 (by rw [hsize]; exact h2)

/-! ## Sizes near the top -/

/-- **When `kmalloc` returns enough.** In every reachable state, a call that returns hands
out a block of at least the requested size if and only if rounding the request up
to a multiple of 8 does not wrap around. -/
theorem kmalloc_enough {x : HeapSys} (h : Reach HeapStart HeapStep x) {n p : Nat} {s' : State Flat}
    (hn : 1 ≤ n) (hn' : n < 2 ^ 32) (hr : kmalloc n x.st = .ok p s') :
    n ≤ load32 s'.mem.data (p - 16) ↔ n ≤ 0xFFFFFFF8 := by
  obtain ⟨bs, hinv, -⟩ := heapReach_ok h
  rcases first_such (Blk.Fits (round8 n)) bs with hfull | ⟨pre, b, post, rfl, hpre, hb⟩
  · rw [kmalloc_full hinv.rep (by omega) hfull] at hr
    cases hr
  obtain ⟨s₁, hk, hinv', -⟩ := kmalloc_hit hinv (by omega) hpre hb
  rw [hk] at hr
  injection hr with hp hs
  subst hp hs
  obtain ⟨c, hc, haddr, hlo, hhi⟩ := serve_first hb
  have hsize : load32 s₁.mem.data c.addr = c.size := hinv'.header_size (by simp [hc])
  have hbnd := hinv.bounds (b := b) (by simp)
  rw [Nat.add_sub_cancel, ← haddr, hsize]
  constructor
  · intro hle
    -- no block is larger than the heap
    omega
  · intro hle
    have := (round8_bounds hle).1
    omega

/-- Of a first request of 20 bytes. -/
theorem kmalloc_enough_first : ∃ x s', Reach HeapStart HeapStep x ∧
    kmalloc 20 x.st = .ok 0x200010 s' ∧ 20 ≤ load32 s'.mem.data 0x200000 := by
  obtain ⟨s, hstart, hboot⟩ := heapStart_boot Image.readme Flat.blank
  obtain ⟨s', hk, -⟩ := kmalloc_hit (n := 20)
    (show HeapInv s ([] ++ wholeHeap :: []) from hboot.heap) (by decide) (by simp) (by decide)
  have hx : Reach HeapStart HeapStep ⟨s, ∅⟩ := .init hstart
  exact ⟨_, s', hx, hk, (kmalloc_enough hx (by decide) (by decide) hk).mpr (by decide)⟩

/-- The largest request gets a block of no bytes. -/
theorem kmalloc_returns_nothing : ∃ x s', Reach HeapStart HeapStep x ∧
    kmalloc 0xFFFFFFFF x.st = .ok 0x200010 s' ∧ load32 s'.mem.data 0x200000 = 0 := by
  obtain ⟨s, hstart, hboot⟩ := heapStart_boot Image.readme Flat.blank
  obtain ⟨s', hk, hinv, -⟩ := kmalloc_hit (n := 0xFFFFFFFF)
    (show HeapInv s ([] ++ wholeHeap :: []) from hboot.heap) (by decide) (by simp) (by decide)
  exact ⟨⟨s, ∅⟩, s', .init hstart, hk, hinv.header_size (b := ⟨0x200000, 0, false⟩) (by decide)⟩

end Kfs
