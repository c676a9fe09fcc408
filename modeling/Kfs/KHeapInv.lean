import Kfs.KHeap
import Kfs.Lib.Chain
import Kfs.Lib.Marks
import Kfs.Lib.Tiling

/-!
# The heap in memory

`HeapInv s bs` says that the memory of `s` represents the block list `bs`: the
list from `free_list` is `bs`, its blocks tile the heap region, their sizes are
multiples of 8 and no two neighbours are free. `kmalloc` and `kfree` are then
edits of `bs`: the first fitting block is served (`kmalloc_hit`), a freed
block is coalesced with its neighbours (`kfree_spec`). Each specification also
bounds the bytes that the operation changes, and says that every word it writes
is inert but the magic of a block that is served.

Nothing of this but the last part of `HeapInv` needs that no two neighbours are
free, so the specifications are proved without it (`HeapRep`).
-/

namespace Kfs

open Kfs.Lib

@[simp] def kheapLimit : Nat := kheapStart + kheapSize

/-- A block header in memory. A free block's `magic` is whatever was there. -/
def hdrNode : Node Blk where
  addr := Blk.addr
  hdr := 16
  next := 12
  holds m b := load32 m b.addr = b.size ∧ load32 m (b.addr + 4) = (if b.free then 1 else 0) ∧
    (b.free = false → load32 m (b.addr + 8) = magicAllocated)
  next_hdr := by omega
  local_hdr := by
    rintro m m' b hm ⟨h1, h2, h3⟩
    refine ⟨?_, ?_, fun hb => ?_⟩
    · rw [← h1]
      exact load32_congr fun a ha hb => hm a (by omega) (by omega)
    · rw [← h2]
      exact load32_congr fun a ha hb => hm a (by omega) (by omega)
    · rw [← h3 hb]
      exact load32_congr fun a ha hb => hm a (by omega) (by omega)

/-- **The heap invariant.** -/
structure HeapInv (s : State Flat) (bs : List Blk) : Prop where
  base : s.kheap.heapBase = kheapStart
  size : s.kheap.heapSize = kheapSize
  start : s.kheap.freeList = kheapStart
  list : Seg hdrNode s.mem.data kheapStart bs 0
  tiled : Tiled headerSize kheapStart bs kheapLimit
  align : ∀ b ∈ bs, b.size % 8 = 0
  coalesced : Coalesced bs

/-- `HeapInv` without its last part. -/
structure HeapRep (s : State Flat) (bs : List Blk) : Prop where
  base : s.kheap.heapBase = kheapStart
  size : s.kheap.heapSize = kheapSize
  start : s.kheap.freeList = kheapStart
  list : Seg hdrNode s.mem.data kheapStart bs 0
  tiled : Tiled headerSize kheapStart bs kheapLimit
  align : ∀ b ∈ bs, b.size % 8 = 0

theorem HeapInv.rep {s : State Flat} {bs : List Blk} (h : HeapInv s bs) : HeapRep s bs :=
  ⟨h.base, h.size, h.start, h.list, h.tiled, h.align⟩

theorem HeapRep.inv {s : State Flat} {bs : List Blk} (h : HeapRep s bs) (hc : Coalesced bs) :
    HeapInv s bs := ⟨h.base, h.size, h.start, h.list, h.tiled, h.align, hc⟩

/-- The words that headers hold complete no magic. -/
theorem inert_aligned {w : Nat} (h4 : w % 4 = 0) (hw : w < 2 ^ 24) : Inert magicAllocated w := by
  intro i hi
  unfold byteOf
  obtain rfl | rfl | rfl | rfl : i = 0 ∨ i = 1 ∨ i = 2 ∨ i = 3 := by omega
  all_goals
    simp only [magicAllocated, Nat.mul_zero, Nat.pow_zero, Nat.reduceMul, Nat.reducePow,
      Nat.reduceDiv, Nat.reduceMod]
    omega

theorem inert_zero : Inert magicAllocated 0 := by decide

theorem inert_one : Inert magicAllocated 1 := by decide

theorem inert_freed : Inert magicAllocated magicFreed := by decide

theorem spread_allocated : Spread magicAllocated := by decide

/-! ## `kmalloc` -/

theorem round8_mod (n : Nat) : round8 n % 8 = 0 := by
  unfold round8
  split
  · rw [and_mask8 _ (add32_lt n 7)]
    omega
  · next h =>
    rw [and_seven] at h
    omega

theorem round8_bounds {n : Nat} (hn : n ≤ 0xFFFFFFF8) : n ≤ round8 n ∧ round8 n < n + 8 := by
  unfold round8
  rw [and_seven]
  split
  · rw [add32_eq (by omega), and_mask8 _ (by omega)]
    omega
  · omega

theorem round8_eq {n : Nat} (hn : n ≤ 0xFFFFFFF8) : round8 n = (n + 7) / 8 * 8 := by
  have hmod := round8_mod n
  have hbnd := round8_bounds hn
  omega

/-- A size above the last multiple of 8 is rounded up to 0. -/
theorem round8_wrap {n : Nat} (hn : 0xFFFFFFF8 < n) (hn' : n < 2 ^ 32) : round8 n = 0 := by
  unfold round8
  rw [and_seven, if_pos (by omega), and_mask8 _ (add32_lt n 7)]
  unfold add32
  omega

section Search

variable {s : State Flat} {r : Nat}

theorem fits_eq {b : Blk} (hb : hdrNode.holds s.mem.data b) (hlim : b.addr + 16 ≤ 2 ^ 32) :
    fits b.addr r s = .ok (decide (b.Fits r)) s := by
  obtain ⟨hsize, hfree, -⟩ := hb
  have h1 : (do return (← ld (b.addr + 4)) ≠ 0 : K Flat Bool) s = .ok b.free s := by
    rw [bind_of_ok (ld_flat (by omega) s), hfree, pure_apply]
    cases b.free <;> rfl
  have h2 : (do return (← ld b.addr) ≥ r : K Flat Bool) s = .ok (decide (r ≤ b.size)) s := by
    rw [bind_of_ok (ld_flat (by omega) s), hsize, pure_apply]
  have h3 : (b.free && decide (r ≤ b.size)) = decide (b.Fits r) := by
    rw [Bool.eq_iff_iff, decide_eq_true_iff]
    simp [Blk.Fits]
  rw [fits, andThen_pure h1 fun _ => h2, h3]

theorem kmallocStep_skip {b : Blk} (hb : hdrNode.holds s.mem.data b) (hnull : b.addr ≠ 0)
    (hlim : b.addr + 16 ≤ 2 ^ 32) (hf : ¬ b.Fits r) :
    kmallocStep r b.addr s = .ok (.inl (load32 s.mem.data (b.addr + 12))) s := by
  unfold kmallocStep
  simp only [hnull, ↓reduceIte]
  rw [bind_of_ok (fits_eq hb hlim)]
  simp only [hf, decide_false, Bool.false_eq_true, ↓reduceIte]
  rw [bind_of_ok (ld_flat (by omega) s)]
  rfl

theorem search_skip {p q n : Nat} {pre : List Blk} (hseg : Seg hdrNode s.mem.data p pre q)
    (hlim : ∀ b ∈ pre, b.addr + 16 ≤ 2 ^ 32) (hf : ∀ b ∈ pre, ¬ b.Fits r) :
    iterate .outOfFuel (kmallocStep r) (n + pre.length) p s =
      iterate .outOfFuel (kmallocStep r) n q s := by
  induction pre generalizing p with
  | nil =>
    have : p = q := hseg
    rw [this]
    rfl
  | cons b pre ih =>
    obtain ⟨hp, hnull, hb, hrest⟩ := hseg
    have hp : p = b.addr := hp
    subst hp
    have hstep := kmallocStep_skip hb hnull (hlim b List.mem_cons_self) (hf b List.mem_cons_self)
    rw [List.length_cons, ← Nat.add_assoc, iterate_next hstep]
    exact ih hrest (fun c hc => hlim c (List.mem_cons_of_mem _ hc))
      fun c hc => hf c (List.mem_cons_of_mem _ hc)

theorem kmallocStep_panic : kmallocStep r 0 s =
    .error (.panic "kmalloc: out of memory! Requested %d bytes, heap full\n" [r]) s := rfl

end Search

/-- The memory after a block at `a` of size `z` with successor `q` has served `r`
bytes. -/
def served (m : Mem) (a z r q : Nat) : Mem :=
  let m' :=
    if r + 32 ≤ z then
      let n := a + 16 + r
      store32 (store32 (store32 (store32 (store32 m n (z - r - 16)) (n + 4) 1) (n + 12) q) a r)
        (a + 12) n
    else m
  store32 (store32 m' (a + 4) 0) (a + 8) magicAllocated

theorem splitBlock_eq {s : State Flat} {a z r : Nat} (hz : load32 s.mem.data a = z) (hr : r ≤ z)
    (hlim : a + 16 + z + 32 ≤ 2 ^ 32) :
    splitBlock a r s = .ok () (s.setData (
      if r + 32 ≤ z then
        let n := a + 16 + r
        store32 (store32 (store32 (store32 (store32 s.mem.data n (z - r - 16)) (n + 4) 1) (n + 12)
          (load32 s.mem.data (a + 12))) a r) (a + 12) n
      else s.mem.data)) := by
  have hneed : add32 (add32 r headerSize) 16 = r + 32 := by
    simp only [headerSize, add32]
    omega
  unfold splitBlock
  rw [bind_of_ok (ld_flat (by omega) s), hz, hneed]
  by_cases hsplit : r + 32 ≤ z
  · have hn : add32 (add32 a headerSize) r = a + 16 + r := by
      simp only [headerSize, add32]
      omega
    have hrest : sub32 (sub32 z r) headerSize = z - r - 16 := by
      simp only [headerSize, sub32]
      omega
    rw [if_pos hsplit, if_pos hsplit]
    simp only [hn, hrest]
    rw [bind_of_ok (st_flat (by omega) _ _), bind_of_ok (st_flat (by omega) _ _),
      bind_of_ok (ld_flat (by omega) _), bind_of_ok (st_flat (by omega) _ _),
      bind_of_ok (st_flat (by omega) _ _), st_flat (by omega)]
    have hq : load32 (store32 (store32 s.mem.data (a + 16 + r) (z - r - 16)) (a + 16 + r + 4) 1)
        (a + 12) = load32 s.mem.data (a + 12) := by
      rw [load32_store32_ne (by omega), load32_store32_ne (by omega)]
    simp only [State.setData, hq]
  · rw [if_neg hsplit, if_neg (by omega)]
    rfl

theorem kmallocStep_hit {s : State Flat} {b : Blk} {r : Nat} (hb : hdrNode.holds s.mem.data b)
    (hnull : b.addr ≠ 0) (hlim : b.addr + 16 + b.size + 32 ≤ 2 ^ 32) (hf : b.Fits r) :
    kmallocStep r b.addr s = .ok (.inr (b.addr + 16))
      { s.setData (served s.mem.data b.addr b.size r (load32 s.mem.data (b.addr + 12))) with
        kheap := { s.kheap with heapUsed := add32 s.kheap.heapUsed (add32 r 16) } } := by
  have hsplit := splitBlock_eq hb.1 hf.2 hlim
  unfold kmallocStep
  simp only [hnull, ↓reduceIte]
  rw [bind_of_ok (fits_eq hb (by omega))]
  simp only [hf, decide_true, ↓reduceIte]
  rw [bind_of_ok hsplit, bind_of_ok (st_flat (by omega) _ _), bind_of_ok (st_flat (by omega) _ _),
    setHeapUsed, modify_bind_apply, pure_apply]
  simp only [State.setData, headerSize, add32_eq (show b.addr + 16 < 2 ^ 32 by omega), served]

theorem served_same {m : Mem} {a z r q : Nat} :
    SameOff (fun x => a ≤ x ∧ x < a + 16 + z) m (served m a z r q) := by
  unfold served
  refine SameOff.store32 (SameOff.store32 ?_ fun x _ _ => by omega) fun x _ _ => by omega
  split
  · refine SameOff.store32 (SameOff.store32 (SameOff.store32 (SameOff.store32 (SameOff.store32
      (SameOff.refl _ _) ?_) ?_) ?_) ?_) ?_ <;> intro x _ _ <;> omega
  · exact SameOff.refl _ _

theorem served_stores {m : Mem} {a z r q : Nat} (ha : a % 8 = 0) (hz : z % 8 = 0) (hr : r % 8 = 0)
    (hlim : a + 16 + z < 2 ^ 24) (hq : Inert magicAllocated q) :
    MarkStores magicAllocated (· = a + 8) m (served m a z r q) := by
  refine .mark (.store ?_ (by omega) inert_zero) (by omega) rfl
  split
  · refine .store (.store (.store (.store (.store .refl ?_ ?_) ?_ inert_one) ?_ hq) ?_ ?_) ?_ ?_
    all_goals first | omega | exact inert_aligned (by omega) (by omega)
  · exact .refl

theorem served_seg {m : Mem} {b : Blk} {r q : Nat} (hb : hdrNode.holds m b) (hnull : b.addr ≠ 0)
    (hlim : b.addr + 16 + b.size < 2 ^ 32) (hq : load32 m (b.addr + 12) = q) :
    Seg hdrNode (served m b.addr b.size r q) b.addr (b.serve 16 16 r) q := by
  have hq32 : q < 2 ^ 32 := hq ▸ load32_lt m _
  unfold served Blk.serve
  by_cases hsplit : r + 32 ≤ b.size
  · rw [if_pos hsplit, if_pos (by omega)]
    have hn : load32 (store32 (store32 (store32 (store32 (store32 (store32 (store32 m
        (b.addr + 16 + r) (b.size - r - 16)) (b.addr + 16 + r + 4) 1) (b.addr + 16 + r + 12) q)
        b.addr r) (b.addr + 12) (b.addr + 16 + r)) (b.addr + 4) 0) (b.addr + 8) magicAllocated)
        (b.addr + 12) = b.addr + 16 + r := by
      rw [load32_store32_ne (by omega), load32_store32_ne (by omega), load32_store32 (by omega)]
    refine ⟨rfl, hnull, ⟨?_, ?_, fun _ => ?_⟩, ?_⟩
    · show load32 _ b.addr = r
      rw [load32_store32_ne (by omega), load32_store32_ne (by omega), load32_store32_ne (by omega),
        load32_store32 (by omega)]
    · show load32 _ (b.addr + 4) = 0
      rw [load32_store32_ne (by omega), load32_store32 (by omega)]
    · show load32 _ (b.addr + 8) = magicAllocated
      rw [load32_store32 (by decide)]
    · show Seg hdrNode _ (load32 _ (b.addr + 12)) _ q
      rw [hn]
      refine ⟨rfl, by omega, ⟨?_, ?_, fun h => by cases h⟩, ?_⟩
      · show load32 _ (b.addr + 16 + r) = b.size - r - 16
        rw [load32_store32_ne (by omega), load32_store32_ne (by omega),
          load32_store32_ne (by omega),
          load32_store32_ne (by omega), load32_store32_ne (by omega), load32_store32_ne (by omega),
          load32_store32 (by omega)]
      · show load32 _ (b.addr + 16 + r + 4) = 1
        rw [load32_store32_ne (by omega), load32_store32_ne (by omega),
          load32_store32_ne (by omega),
          load32_store32_ne (by omega), load32_store32_ne (by omega), load32_store32 (by omega)]
      · show load32 _ (b.addr + 16 + r + 12) = q
        rw [load32_store32_ne (by omega), load32_store32_ne (by omega),
          load32_store32_ne (by omega),
          load32_store32_ne (by omega), load32_store32 hq32]
  · rw [if_neg hsplit, if_neg (by omega)]
    refine ⟨rfl, hnull, ⟨?_, ?_, fun _ => ?_⟩, ?_⟩
    · show load32 _ b.addr = b.size
      rw [load32_store32_ne (by omega), load32_store32_ne (by omega), hb.1]
    · show load32 _ (b.addr + 4) = 0
      rw [load32_store32_ne (by omega), load32_store32 (by omega)]
    · show load32 _ (b.addr + 8) = magicAllocated
      rw [load32_store32 (by decide)]
    · show load32 _ (b.addr + 12) = q
      rw [load32_store32_ne (by omega), load32_store32_ne (by omega), hq]

theorem HeapRep.bounds {s : State Flat} {bs : List Blk} (h : HeapRep s bs) {b : Blk} (hb : b ∈ bs) :
    0x200000 ≤ b.addr ∧ b.addr + 16 + b.size ≤ 0x300000 := h.tiled.bounds b hb

theorem HeapInv.bounds {s : State Flat} {bs : List Blk} (h : HeapInv s bs) {b : Blk} (hb : b ∈ bs) :
    0x200000 ≤ b.addr ∧ b.addr + 16 + b.size ≤ 0x300000 := h.rep.bounds hb

theorem HeapRep.addr_mod {s : State Flat} {bs : List Blk} (h : HeapRep s bs) {b : Blk}
    (hb : b ∈ bs) : b.addr % 8 = 0 :=
  Nat.mod_eq_zero_of_dvd (h.tiled.dvd_addr (by decide) (by decide)
    (fun c hc => Nat.dvd_of_mod_eq_zero (h.align c hc)) b hb)

theorem HeapRep.length_lt {s : State Flat} {bs : List Blk} (h : HeapRep s bs) :
    bs.length < maxRounds := by
  have := h.tiled.length_le
  rw [maxRounds_eq]
  simp only [headerSize, kheapStart, kheapLimit, kheapSize, kheapEnd] at *
  omega

theorem seg_inert {m : Mem} {q d e : Nat} {bs : List Blk} (h : Seg hdrNode m q bs 0)
    (ht : Tiled 16 d bs e) (hd : d % 8 = 0) (he : e < 2 ^ 24) : Inert magicAllocated q := by
  cases bs with
  | nil =>
    have hq : q = 0 := h
    rw [hq]
    exact inert_zero
  | cons c bs =>
    have hq : q = d := h.1.trans ht.1
    have hle := ht.le
    rw [hq]
    exact inert_aligned (by omega) (by omega)

theorem serve_align {b c : Blk} {n : Nat} (hb : b.size % 8 = 0)
    (hc : c ∈ b.serve 16 16 (round8 n)) :
    c.size % 8 = 0 := by
  have hr := round8_mod n
  unfold Blk.serve at hc
  split at hc
  · rcases List.mem_cons.mp hc with rfl | hc
    · exact hr
    · rw [List.mem_singleton] at hc
      subst hc
      show (b.size - round8 n - 16) % 8 = 0
      omega
  · rw [List.mem_singleton] at hc
    subst hc
    exact hb

/-- **`kmalloc` with room**: the first block that fits is served. -/
theorem kmalloc_rep {s : State Flat} {pre post : List Blk} {b : Blk} {n : Nat}
    (h : HeapRep s (pre ++ b :: post)) (hn : n ≠ 0) (hpre : ∀ c ∈ pre, ¬ c.Fits (round8 n))
    (hb : b.Fits (round8 n)) :
    ∃ s', kmalloc n s = .ok (b.addr + 16) s' ∧
      HeapRep s' (pre ++ b.serve 16 16 (round8 n) ++ post) ∧
      s'.kheap.heapUsed = add32 s.kheap.heapUsed (add32 (round8 n) 16) ∧
      SameOff (fun x => b.addr ≤ x ∧ x < b.addr + 16 + b.size) s.mem.data s'.mem.data ∧
      MarkStores magicAllocated (· = b.addr + 8) s.mem.data s'.mem.data := by
  have hlen := h.length_lt
  have hbnd := h.bounds (b := b) (by simp)
  have hlim : ∀ c ∈ pre ++ b :: post, c.addr + 16 ≤ 2 ^ 32 := fun c hc => by
    have := h.bounds hc
    omega
  obtain ⟨p, hseg, hp, hnull, hhold, hpost⟩ := seg_append.mp h.list
  have hp : p = b.addr := hp
  subst hp
  obtain ⟨d, htpre, htb, htpost⟩ := tiled_append.mp h.tiled
  have hsame := served_same (m := s.mem.data) (a := b.addr) (z := b.size) (r := round8 n)
    (q := load32 s.mem.data (b.addr + 12))
  have hb8 := h.addr_mod (b := b) (by simp)
  have hz8 := h.align b (by simp)
  have hstores := served_stores (m := s.mem.data) hb8 hz8 (round8_mod n) (by omega)
    (seg_inert hpost htpost (by simp only [headerSize]; omega) (by decide))
  -- the headers of the other blocks are not touched
  have hother : ∀ c ∈ pre ++ post, ∀ x, c.addr ≤ x → x < c.addr + 16 →
      served s.mem.data b.addr b.size (round8 n) (load32 s.mem.data (b.addr + 12)) x =
        s.mem.data x := by
    intro c hc x h1 h2
    refine hsame x fun hx => ?_
    have := pairwise_split h.tiled.apart hc
    simp only [headerSize] at this
    omega
  refine ⟨{ s.setData (served s.mem.data b.addr b.size (round8 n)
      (load32 s.mem.data (b.addr + 12))) with
      kheap := { s.kheap with heapUsed := add32 s.kheap.heapUsed (add32 (round8 n) 16) } },
    ?_, ⟨h.base, h.size, h.start, ?_, ?_, ?_⟩, rfl, hsame, hstores⟩
  · unfold kmalloc
    rw [if_neg hn, get_bind_apply, h.start]
    simp only [List.length_append, List.length_cons] at hlen
    obtain ⟨k, hk⟩ : ∃ k, maxRounds = k + 1 + pre.length :=
      ⟨maxRounds - pre.length - 1, by omega⟩
    rw [hk, search_skip hseg (fun c hc => hlim c (by simp [hc])) hpre,
      iterate_done (kmallocStep_hit hhold hnull (by omega) hb)]
  · rw [List.append_assoc, seg_append]
    refine ⟨b.addr, hseg.frame fun c hc => hother c (by simp [hc]), ?_⟩
    rw [seg_append]
    exact ⟨_, served_seg hhold hnull (by omega) rfl,
      hpost.frame fun c hc => hother c (by simp [hc])⟩
  · rw [List.append_assoc, tiled_append]
    refine ⟨d, htpre, ?_⟩
    rw [tiled_append]
    exact ⟨_, Blk.serve_tiled ⟨htb, rfl⟩, htpost⟩
  · intro c hc
    have hal := h.align
    rcases List.mem_append.mp hc with hc | hc
    · rcases List.mem_append.mp hc with hc | hc
      · exact hal c (by simp [hc])
      · exact serve_align (hal b (by simp)) hc
    · exact hal c (by simp [hc])

theorem kmalloc_hit {s : State Flat} {pre post : List Blk} {b : Blk} {n : Nat}
    (h : HeapInv s (pre ++ b :: post)) (hn : n ≠ 0) (hpre : ∀ c ∈ pre, ¬ c.Fits (round8 n))
    (hb : b.Fits (round8 n)) :
    ∃ s', kmalloc n s = .ok (b.addr + 16) s' ∧
      HeapInv s' (pre ++ b.serve 16 16 (round8 n) ++ post) ∧
      s'.kheap.heapUsed = add32 s.kheap.heapUsed (add32 (round8 n) 16) ∧
      SameOff (fun x => b.addr ≤ x ∧ x < b.addr + 16 + b.size) s.mem.data s'.mem.data ∧
      MarkStores magicAllocated (· = b.addr + 8) s.mem.data s'.mem.data := by
  obtain ⟨s', hk, hrep, hrest⟩ := kmalloc_rep h.rep hn hpre hb
  exact ⟨s', hk, hrep.inv (serve_coalesced h.coalesced hb.1), hrest⟩

/-- **`kmalloc` without room** panics and changes nothing. -/
theorem kmalloc_full {s : State Flat} {bs : List Blk} {n : Nat} (h : HeapRep s bs) (hn : n ≠ 0)
    (hbs : ∀ c ∈ bs, ¬ c.Fits (round8 n)) :
    kmalloc n s = .error
      (.panic "kmalloc: out of memory! Requested %d bytes, heap full\n" [round8 n]) s := by
  have hlen := h.length_lt
  unfold kmalloc
  rw [if_neg hn, get_bind_apply, h.start]
  obtain ⟨k, hk⟩ : ∃ k, maxRounds = k + 1 + bs.length := ⟨maxRounds - bs.length - 1, by omega⟩
  rw [hk, search_skip h.list (fun c hc => ?_) hbs, iterate_error kmallocStep_panic]
  have := h.bounds hc
  omega

/-! ## `kfree` -/

def InHeader (bs : List Blk) (x : Nat) : Prop := ∃ c ∈ bs, c.addr ≤ x ∧ x < c.addr + 16

/-- The bytes of the `size` and `next` words of `bs`. -/
def InLinks (bs : List Blk) (x : Nat) : Prop :=
  ∃ c ∈ bs, c.addr ≤ x ∧ x < c.addr + 4 ∨ c.addr + 12 ≤ x ∧ x < c.addr + 16

theorem InLinks.inHeader {bs : List Blk} {x : Nat} (h : InLinks bs x) : InHeader bs x := by
  obtain ⟨c, hc, h⟩ := h
  exact ⟨c, hc, by omega, by omega⟩

/-- The memory after `c` is joined to the block `b` before it. -/
def joined (m : Mem) (b c : Blk) : Mem :=
  store32 (store32 m b.addr (b.size + (16 + c.size))) (b.addr + 12) (load32 m (c.addr + 12))

section Join

variable {s : State Flat} {b c : Blk} {cs : List Blk} {e : Nat} (he : e ≤ 0x300000)
  (hseg : Seg hdrNode s.mem.data b.addr (b :: c :: cs) 0) (ht : Tiled 16 b.addr (b :: c :: cs) e)
include he hseg ht

/-- A round of the merging loop at two neighbours, up to its test. -/
theorem mergeStep_pair : mergeStep b.addr s = (if b.free && c.free then do
      let nextSize ← ld c.addr
      st b.addr (add32 b.size (add32 headerSize nextSize))
      let nextNext ← ld (c.addr + 12)
      st (b.addr + 12) nextNext
      return .inl b.addr
    else return .inl c.addr : K Flat (Nat ⊕ Unit)) s := by
  obtain ⟨-, hnull, hb, hnext, hnull', hc, -⟩ := hseg
  have hnext : load32 s.mem.data (b.addr + 12) = c.addr := hnext
  have hcad : c.addr = b.addr + 16 + b.size := ht.2.1
  have hcbnd := ht.2.2.le
  have hend : add32 (add32 b.addr headerSize) b.size = c.addr := by
    simp only [add32, headerSize]
    omega
  have hfree : andThen (do return (← ld (b.addr + 4)) ≠ 0) (do return (← ld (c.addr + 4)) ≠ 0) s =
      .ok (b.free && c.free) s := by
    refine andThen_pure ?_ fun _ => ?_
    · rw [bind_of_ok (ld_flat (by omega) s), hb.2.1, pure_apply]
      cases b.free <;> rfl
    · rw [bind_of_ok (ld_flat (by omega) s), hc.2.1, pure_apply]
      cases c.free <;> rfl
  unfold mergeStep
  simp only [hnull, ↓reduceIte]
  rw [bind_of_ok (ld_flat (by omega) s), hnext]
  simp only [show c.addr ≠ 0 by omega, ↓reduceIte]
  rw [bind_of_ok (ld_flat (by omega) s), hb.1, bind_of_ok hfree]
  simp only [hend, decide_true, Bool.and_true]

theorem mergeStep_join (hbc : (b.free && c.free) = true) :
    mergeStep b.addr s = .ok (.inl b.addr) (s.setData (joined s.mem.data b c)) := by
  have hc := hseg.2.2.2.2.2.1
  have hcad : c.addr = b.addr + 16 + b.size := ht.2.1
  have hcbnd := ht.2.2.le
  have hsum : add32 b.size (add32 headerSize c.size) = b.size + (16 + c.size) := by
    simp only [add32, headerSize]
    omega
  rw [mergeStep_pair he hseg ht, if_pos hbc, bind_of_ok (ld_flat (by omega) s), hc.1, hsum,
    bind_of_ok (st_flat (by omega) _ _), bind_of_ok (ld_flat (by omega) _),
    bind_of_ok (st_flat (by omega) _ _), pure_apply]
  simp only [State.setData, joined]
  rw [load32_store32_ne (by omega)]

omit he hseg ht in
theorem joined_same (m : Mem) (b c : Blk) : SameOff (InLinks [b]) m (joined m b c) := by
  refine SameOff.store32 (SameOff.store32 (SameOff.refl _ _) ?_) ?_ <;> intro x h1 h2 <;>
    exact ⟨b, by simp, by omega⟩

theorem joined_stores (ha8 : b.addr % 8 = 0) (hz8 : (b.size + (16 + c.size)) % 8 = 0) :
    InertStores magicAllocated s.mem.data (joined s.mem.data b c) := by
  obtain ⟨-, -, -, hnext, -, -, hrest⟩ := hseg
  have hcad : c.addr = b.addr + 16 + b.size := ht.2.1
  have hcbnd := ht.2.2.le
  rw [show load32 s.mem.data (b.addr + hdrNode.next) = c.addr from hnext] at hrest
  refine .store (.store .refl (by omega) ?_) (by omega) ?_
  · exact inert_aligned (by omega) (by omega)
  · exact seg_inert hrest ht.2.2 (by omega) (by omega)

theorem joined_seg (hfree : b.free = true) :
    Seg hdrNode (joined s.mem.data b c) b.addr (b.join 16 c :: cs) 0 := by
  obtain ⟨-, hnull, hb, hnext, -, -, hrest⟩ := hseg
  have hcad : c.addr = b.addr + 16 + b.size := ht.2.1
  have hcbnd := ht.2.2.le
  rw [show load32 s.mem.data (b.addr + hdrNode.next) = c.addr from hnext] at hrest
  refine ⟨rfl, hnull, ⟨?_, ?_, fun hf => ?_⟩, ?_⟩
  · show load32 (joined s.mem.data b c) b.addr = b.size + (16 + c.size)
    unfold joined
    rw [load32_store32_ne (by omega), load32_store32 (by omega)]
  · show load32 (joined s.mem.data b c) (b.addr + 4) = _
    unfold joined
    rw [load32_store32_ne (by omega), load32_store32_ne (by omega), hb.2.1]
    rfl
  · rw [show (b.join 16 c).free = b.free from rfl, hfree] at hf
    cases hf
  · show Seg hdrNode (joined s.mem.data b c) (load32 (joined s.mem.data b c) (b.addr + 12)) cs 0
    rw [show load32 (joined s.mem.data b c) (b.addr + 12) = load32 s.mem.data (c.addr + 12) from
      load32_store32 (load32_lt _ _)]
    refine hrest.frame fun x hx a h1 h2 => joined_same _ _ _ a ?_
    rintro ⟨y, hy, h3⟩
    rw [List.mem_singleton] at hy
    subst hy
    have := ht.2.2.bounds x hx
    have h1 : x.addr ≤ a := h1
    omega

end Join

/-- **The merging loop** coalesces the list it walks, and writes sizes and links only; what
it writes completes no magic. -/
theorem merge_spec {e : Nat} (he : e ≤ 0x300000) :
    ∀ {cs : List Blk} {b : Blk} {s : State Flat} {n : Nat},
      Seg hdrNode s.mem.data b.addr (b :: cs) 0 → Tiled 16 b.addr (b :: cs) e → cs.length < n →
      b.addr % 8 = 0 → (∀ x ∈ b :: cs, x.size % 8 = 0) →
      ∃ m, iterate .outOfFuel mergeStep n b.addr s = .ok () (s.setData m) ∧
        Seg hdrNode m b.addr (coalesceFrom 16 b cs) 0 ∧
        SameOff (InLinks (b :: cs)) s.mem.data m ∧ InertStores magicAllocated s.mem.data m
  | [], b, s, n + 1, hseg, ht, _, _, _ => by
    obtain ⟨-, hnull, hb, hnext⟩ := hseg
    have hnext : load32 s.mem.data (b.addr + 12) = 0 := hnext
    have hbnd : b.addr + 16 + b.size ≤ e := ht.2.le
    refine ⟨s.mem.data, ?_, ⟨rfl, hnull, hb, hnext⟩, SameOff.refl _ _, .refl⟩
    refine iterate_done ?_
    unfold mergeStep
    simp only [hnull, ↓reduceIte]
    rw [bind_of_ok (ld_flat (by omega) s), hnext]
    rfl
  | c :: cs, b, s, n + 1, hseg, ht, hn, ha8, hal => by
    have hb8 := hal b (by simp)
    have hc8 := hal c (by simp)
    simp only [List.length_cons] at hn
    by_cases hbc : (b.free && c.free) = true
    · -- stay on the joined block
      have hstep := mergeStep_join he hseg ht hbc
      rw [Bool.and_eq_true] at hbc
      have hal' : ∀ x ∈ b.join 16 c :: cs, x.size % 8 = 0 := by
        intro x hx
        rcases List.mem_cons.mp hx with rfl | hx
        · show (b.size + (16 + c.size)) % 8 = 0
          omega
        · exact hal x (by simp [hx])
      obtain ⟨m', hr, hs, hsame, hstores⟩ := merge_spec he (b := b.join 16 c)
        (s := s.setData (joined s.mem.data b c)) (n := n) (joined_seg he hseg ht hbc.1)
        (join_tiled ht)
        (by omega) ha8 hal'
      refine ⟨m', ?_, ?_, ?_, (joined_stores he hseg ht (by omega) (by omega)).trans hstores⟩
      · rw [iterate_next hstep]
        exact hr
      · rw [coalesceFrom, if_pos (by rw [Bool.and_eq_true]; exact hbc)]
        exact hs
      · refine ((joined_same _ b c).mono ?_).trans (hsame.mono ?_)
        · rintro x ⟨y, hy, h1⟩
          rw [List.mem_singleton] at hy
          exact ⟨y, by simp [hy], h1⟩
        · rintro x ⟨y, hy, h1⟩
          rcases List.mem_cons.mp hy with rfl | hy
          · exact ⟨b, by simp, h1⟩
          · exact ⟨y, by simp [hy], h1⟩
    · -- go on to the next block
      have hstep : mergeStep b.addr s = .ok (.inl c.addr) s := by
        rw [mergeStep_pair he hseg ht, if_neg hbc]
        rfl
      obtain ⟨-, hnull, hb, hnext, hnull', hc, hrest⟩ := hseg
      have hnext : load32 s.mem.data (b.addr + 12) = c.addr := hnext
      rw [show load32 s.mem.data (b.addr + hdrNode.next) = c.addr from hnext] at hrest
      have hcad : c.addr = b.addr + 16 + b.size := ht.2.1
      have ht' : Tiled 16 c.addr (c :: cs) e := by
        rw [hcad]
        exact ht.2
      obtain ⟨m', hr, hs, hsame, hstores⟩ := merge_spec he (s := s)
        (n := n) ⟨rfl, by omega, hc, hrest⟩
        ht' (by omega) (by omega) fun x hx => hal x (by simp [hx])
      have hbhdr : ∀ x, b.addr ≤ x → x < b.addr + 16 → m' x = s.mem.data x := by
        refine fun x h1 h2 => hsame x ?_
        rintro ⟨y, hy, h3⟩
        have := ht'.bounds y hy
        omega
      refine ⟨m', ?_, ?_, ?_, hstores⟩
      · rw [iterate_next hstep]
        exact hr
      · rw [coalesceFrom, if_neg hbc]
        refine ⟨rfl, hnull, hdrNode.local_hdr hbhdr hb, ?_⟩
        show Seg hdrNode m' (load32 m' (b.addr + 12)) _ 0
        rw [load32_congr fun x h1 h2 => hbhdr x (by omega) (by omega), hnext]
        exact hs
      · refine hsame.mono ?_
        rintro x ⟨y, hy, h1⟩
        exact ⟨y, List.mem_cons_of_mem _ hy, h1⟩

def marked (m : Mem) (a : Nat) : Mem := store32 (store32 m (a + 4) 1) (a + 8) magicFreed

theorem kfree_eq {s : State Flat} {a z p : Nat} (ha : a + 32 < 2 ^ 32)
    (hsize : load32 s.mem.data a = z) (hmagic : load32 s.mem.data (a + 8) = magicAllocated)
    (hp : s.kheap.freeList = p) :
    kfree (a + 16) s = iterate .outOfFuel mergeStep maxRounds p
      { s.setData (marked s.mem.data a) with
        kheap := { s.kheap with heapUsed := sub32 s.kheap.heapUsed (add32 z 16) } } := by
  have hblk : sub32 (a + 16) headerSize = a := by
    simp only [sub32, headerSize]
    omega
  have hsize' : load32 (store32 (store32 s.mem.data (a + 4) 1) (a + 8) magicFreed) a = z := by
    rw [load32_store32_ne (by omega), load32_store32_ne (by omega), hsize]
  subst hp
  unfold kfree
  simp only [show a + 16 ≠ 0 by omega, ↓reduceIte, hblk]
  rw [bind_of_ok (ld_flat (by omega) s), hmagic]
  simp only [show magicAllocated ≠ magicFreed by decide, ↓reduceIte, ne_eq, not_true_eq_false]
  rw [bind_of_ok (st_flat (by omega) _ _), bind_of_ok (st_flat (by omega) _ _),
    bind_of_ok (ld_flat (by omega) _)]
  simp only [State.setData, hsize']
  rw [setHeapUsed, modify_bind_apply, get_bind_apply]
  rfl

theorem kmerge_rep {s : State Flat} {bs : List Blk} (h : HeapRep s bs) :
    ∃ m, iterate .outOfFuel mergeStep maxRounds s.kheap.freeList s = .ok () (s.setData m) ∧
      HeapRep (s.setData m) (coalesce 16 bs) ∧ Coalesced (coalesce 16 bs) ∧
      SameOff (InLinks bs) s.mem.data m ∧ InertStores magicAllocated s.mem.data m := by
  have hlen := h.length_lt
  have hlist := h.list
  have htiled := h.tiled
  have halign := h.align
  cases bs with
  | nil => exact absurd (show kheapStart = kheapLimit from htiled) (by decide)
  | cons c cs =>
    have hc : c.addr = kheapStart := hlist.1.symm
    have hc8 := h.addr_mod (b := c) (by simp)
    rw [← hc] at hlist htiled
    obtain ⟨m, hr, hs, hsame, hstores⟩ := merge_spec (e := kheapLimit) (by decide) (s := s)
      (n := maxRounds) hlist htiled (by simp only [List.length_cons] at hlen; omega) hc8 halign
    refine ⟨m, ?_, ⟨h.base, h.size, h.start, ?_, ?_, ?_⟩, ?_, hsame, hstores⟩
    · rw [h.start, ← hc]
      exact hr
    · rw [coalesce, ← hc]
      exact hs
    · exact coalesce_tiled h.tiled
    · refine coalesceFrom_all (fun x y hx hy => ?_) (halign c (by simp)) fun x hx =>
        halign x (by simp [hx])
      show (x.size + (16 + y.size)) % 8 = 0
      omega
    · exact coalesce_coalesced 16 (c :: cs)

theorem marked_stores (m : Mem) {a : Nat} (ha : a % 4 = 0) :
    InertStores magicAllocated m (marked m a) :=
  .store (.store .refl (by omega) inert_one) (by omega) inert_freed

theorem marked_magic (m : Mem) (a : Nat) : load32 (marked m a) (a + 8) = magicFreed :=
  load32_store32 (by decide)

theorem HeapRep.mark {s : State Flat} {pre post : List Blk} {b : Blk}
    (h : HeapRep s (pre ++ b :: post)) (u : Nat) :
    HeapRep { s.setData (marked s.mem.data b.addr) with kheap := { s.kheap with heapUsed := u } }
        (pre ++ b.release :: post) ∧
      SameOff (InHeader [b]) s.mem.data (marked s.mem.data b.addr) := by
  have hbnd := h.bounds (b := b) (by simp)
  obtain ⟨p, hseg, hp, hnull, hhold, hpost⟩ := seg_append.mp h.list
  have hp : p = b.addr := hp
  subst hp
  have hmark : SameOff (InHeader [b]) s.mem.data (marked s.mem.data b.addr) := by
    refine SameOff.store32 (SameOff.store32 (SameOff.refl _ _) ?_) ?_ <;> intro x h1 h2 <;>
      exact ⟨b, by simp, by omega, by omega⟩
  have hother : ∀ c ∈ pre ++ post, ∀ x, c.addr ≤ x → x < c.addr + 16 →
      marked s.mem.data b.addr x = s.mem.data x := by
    intro c hc x h1 h2
    refine hmark x ?_
    rintro ⟨y, hy, h3, h4⟩
    rw [List.mem_singleton] at hy
    subst hy
    have := pairwise_split h.tiled.apart hc
    simp only [headerSize] at this
    omega
  refine ⟨⟨h.base, h.size, h.start, ?_, release_tiled h.tiled, fun c hc => ?_⟩, hmark⟩
  · show Seg hdrNode (marked s.mem.data b.addr) kheapStart (pre ++ b.release :: post) 0
    rw [seg_append]
    refine ⟨b.addr, hseg.frame fun c hc => hother c (by simp [hc]), rfl, hnull,
      ⟨?_, ?_, fun hf => by cases hf⟩, ?_⟩
    · show load32 (marked s.mem.data b.addr) b.addr = b.size
      unfold marked
      rw [load32_store32_ne (by omega), load32_store32_ne (by omega), hhold.1]
    · show load32 (marked s.mem.data b.addr) (b.addr + 4) = 1
      unfold marked
      rw [load32_store32_ne (by omega), load32_store32 (by omega)]
    · show Seg hdrNode _ (load32 (marked s.mem.data b.addr) (b.addr + 12)) post 0
      have hnext : load32 (marked s.mem.data b.addr) (b.addr + 12) =
          load32 s.mem.data (b.addr + 12) := by
        unfold marked
        rw [load32_store32_ne (by omega), load32_store32_ne (by omega)]
      rw [hnext]
      exact hpost.frame fun c hc => hother c (by simp [hc])
  · rcases List.mem_append.mp hc with hc | hc
    · exact h.align c (by simp [hc])
    · rcases List.mem_cons.mp hc with rfl | hc
      · exact h.align b (by simp)
      · exact h.align c (by simp [hc])

theorem inHeader_release {pre post : List Blk} {b : Blk} {x : Nat}
    (h : InHeader (pre ++ b.release :: post) x) : InHeader (pre ++ b :: post) x := by
  obtain ⟨y, hy, hx⟩ := h
  rcases List.mem_append.mp hy with hy | hy
  · exact ⟨y, by simp [hy], hx⟩
  · rcases List.mem_cons.mp hy with rfl | hy
    · exact ⟨b, by simp, hx⟩
    · exact ⟨y, by simp [hy], hx⟩

/-- **What `kfree` of an allocated block writes**: the mark of the block, and then `size` and
`next` words only. -/
theorem kfree_links {s : State Flat} {pre post : List Blk} {b : Blk}
    (h : HeapRep s (pre ++ b :: post)) (hb : b.free = false) :
    ∃ m, kfree (b.addr + 16) s = .ok () { s.setData m with
          kheap := { s.kheap with heapUsed := sub32 s.kheap.heapUsed (b.size + 16) } } ∧
      HeapRep { s.setData m with
          kheap := { s.kheap with heapUsed := sub32 s.kheap.heapUsed (b.size + 16) } }
        (coalesce 16 (pre ++ b.release :: post)) ∧
      Coalesced (coalesce 16 (pre ++ b.release :: post)) ∧
      SameOff (InLinks (pre ++ b.release :: post)) (marked s.mem.data b.addr) m ∧
      InertStores magicAllocated (marked s.mem.data b.addr) m := by
  have hbnd := h.bounds (b := b) (by simp)
  have hhold := h.list.holds b (by simp)
  obtain ⟨hrep, -⟩ := h.mark (sub32 s.kheap.heapUsed (b.size + 16))
  obtain ⟨m, hr, hrest⟩ := kmerge_rep hrep
  have hfree := kfree_eq (z := b.size) (by omega) hhold.1 (hhold.2.2 hb) rfl
  rw [add32_eq (by omega)] at hfree
  exact ⟨m, hfree.trans hr, hrest⟩

theorem HeapRep.magic_off_links {s : State Flat} {bs : List Blk} {b : Blk} (h : HeapRep s bs)
    (hb : b ∈ bs) {x : Nat} (h1 : b.addr + 8 ≤ x) (h2 : x < b.addr + 12) : ¬ InLinks bs x := by
  rintro ⟨y, hy, h3⟩
  have hsep := h.tiled.sep hb hy
  simp only [headerSize] at hsep
  rcases hsep with rfl | hsep | hsep <;> omega

/-- **`kfree` of an allocated block**: it is marked free and coalesced with its
neighbours. Its magic is gone, and no other magic came. -/
theorem kfree_rep {s : State Flat} {pre post : List Blk} {b : Blk}
    (h : HeapRep s (pre ++ b :: post)) (hb : b.free = false) :
    ∃ s', kfree (b.addr + 16) s = .ok () s' ∧
      HeapRep s' (coalesce 16 (pre ++ b.release :: post)) ∧
      Coalesced (coalesce 16 (pre ++ b.release :: post)) ∧
      s'.kheap.heapUsed = sub32 s.kheap.heapUsed (b.size + 16) ∧
      SameOff (InHeader (pre ++ b :: post)) s.mem.data s'.mem.data ∧
      InertStores magicAllocated s.mem.data s'.mem.data ∧
      load32 s'.mem.data (b.addr + 8) = magicFreed := by
  have hb8 := h.addr_mod (b := b) (by simp)
  obtain ⟨hrep, hmark⟩ := h.mark (sub32 s.kheap.heapUsed (b.size + 16))
  obtain ⟨m, hr, hrep', hco, hsame, hstores⟩ := kfree_links h hb
  refine ⟨_, hr, hrep', hco, rfl, ?_, (marked_stores _ (by omega)).trans hstores, ?_⟩
  · refine (hmark.mono ?_).trans (hsame.mono fun x hx => inHeader_release hx.inHeader)
    rintro x ⟨y, hy, h1, h2⟩
    rw [List.mem_singleton] at hy
    exact ⟨y, by simp [hy], h1, h2⟩
  · show load32 m (b.addr + 8) = magicFreed
    rw [hsame.load32, marked_magic]
    intro x h1 h2
    exact hrep.magic_off_links (b := b.release) (by simp) h1 h2

theorem kfree_spec {s : State Flat} {pre post : List Blk} {b : Blk}
    (h : HeapInv s (pre ++ b :: post)) (hb : b.free = false) :
    ∃ s', kfree (b.addr + 16) s = .ok () s' ∧
      HeapInv s' (coalesce 16 (pre ++ b.release :: post)) ∧
      s'.kheap.heapUsed = sub32 s.kheap.heapUsed (b.size + 16) ∧
      SameOff (InHeader (pre ++ b :: post)) s.mem.data s'.mem.data ∧
      InertStores magicAllocated s.mem.data s'.mem.data ∧
      load32 s'.mem.data (b.addr + 8) = magicFreed := by
  obtain ⟨s', hk, hrep, hco, hrest⟩ := kfree_rep h.rep hb
  exact ⟨s', hk, hrep.inv hco, hrest⟩

end Kfs
