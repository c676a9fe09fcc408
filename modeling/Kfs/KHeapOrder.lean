import Kfs.KHeapRun

/-!
# Coalescing is complete

No two neighbours of a reachable heap are free, so its list is a function of
the live blocks: the order of the frees that led to a state leaves no trace,
and a heap with nothing live is the single block of `kheap_init`.
-/

namespace Kfs

open Kfs.Lib

/-- The live pointers with their blocks' sizes. -/
def HeapSys.livePairs (x : HeapSys) : Finset (Nat × Nat) := x.live.image fun p => (p, x.sizeOf p)

/-- The list in memory as `(address, size, free)`. -/
def Listing (s : State Flat) (ts : List (Nat × Nat × Nat)) : Prop :=
  ∃ hs, Blocks s.mem.data s.kheap.freeList hs ∧ ts = hs.map fun h => (h.addr, h.size, h.free)

/-- `kfree` of each pointer in turn. -/
def freeAll : List Nat → K Flat Unit
  | [] => pure ()
  | p :: ps => do kfree p; freeAll ps

/-! ## The list is determined by what is live -/

def listingOf (bs : List Blk) : List (Nat × Nat × Nat) :=
  bs.map fun b => (b.addr, b.size, if b.free then 1 else 0)

theorem HeapInv.listing {s : State Flat} {bs : List Blk} (h : HeapInv s bs) :
    Listing s (listingOf bs) := by
  refine ⟨_, h.blocks, ?_⟩
  unfold headersOf listingOf
  rw [List.map_map]
  refine List.map_congr_left fun b hb => ?_
  show _ = (b.addr, (headerAt s.mem.data b.addr).size, (headerAt s.mem.data b.addr).free)
  rw [h.header_size hb, h.header_free hb]

theorem mem_livePairs {x : HeapSys} {bs : List Blk} (h : HeapInv x.st bs) (hl : LiveOf x.live bs)
    {b : Blk} (hb : b.free = false) : b ∈ bs ↔ (b.addr + 16, b.size) ∈ x.livePairs := by
  unfold HeapSys.livePairs
  rw [Finset.mem_image]
  constructor
  · intro hm
    refine ⟨b.addr + 16, (hl _).mpr ⟨b, hm, hb, rfl⟩, ?_⟩
    rw [show x.sizeOf (b.addr + 16) = b.size from h.header_size hm]
  · rintro ⟨p, hp, heq⟩
    obtain ⟨c, hc, hcf, rfl⟩ := (hl p).mp hp
    rw [show x.sizeOf (c.addr + 16) = c.size from h.header_size hc] at heq
    injection heq with h1 h2
    have hbc : b = c := by
      cases b
      cases c
      simp_all
    rw [hbc]
    exact hc

theorem blocks_determined {x y : HeapSys} {bs cs : List Blk} (hx : HeapInv x.st bs)
    (hlx : LiveOf x.live bs) (hy : HeapInv y.st cs) (hly : LiveOf y.live cs)
    (h : x.livePairs = y.livePairs) : bs = cs := by
  refine tiled_determined (by decide) hx.tiled hy.tiled hx.coalesced hy.coalesced fun b hb => ?_
  rw [mem_livePairs hx hlx hb, mem_livePairs hy hly hb, h]

theorem blocks_nothing_live {s : State Flat} {bs : List Blk} (h : HeapInv s bs)
    (hl : LiveOf ∅ bs) : bs = [wholeHeap] := by
  refine tiled_determined (by decide) h.tiled ⟨rfl, rfl⟩ h.coalesced (.singleton _) fun b hb => ?_
  constructor
  · intro hm
    exact absurd ((hl _).mpr ⟨b, hm, hb, rfl⟩) (Finset.notMem_empty _)
  · intro hm
    rw [List.mem_singleton.mp hm] at hb
    cases hb

/-! ## Freeing a list of pointers -/

theorem kfree_live {x : HeapSys} (h : HeapOk x) {p : Nat} (hp : p ∈ x.live) :
    ∃ s, kfree p x.st = .ok () s ∧ HeapStep x (.kfree p) ⟨s, x.live.erase p⟩ := by
  obtain ⟨bs, hinv, hl⟩ := h
  obtain ⟨b, hb, hbf, rfl⟩ := (hl p).mp hp
  obtain ⟨pre, post, rfl⟩ := List.append_of_mem hb
  obtain ⟨s, hr, -⟩ := kfree_spec hinv hbf
  exact ⟨s, hr, hp, hr, rfl⟩

theorem kfree_sizeOf {x y : HeapSys} {p q : Nat} (h : HeapOk x) (hs : HeapStep x (.kfree p) y)
    (hq : q ∈ x.live) (hpq : p ≠ q) : y.sizeOf q = x.sizeOf q := by
  obtain ⟨bs, hinv, hl⟩ := h
  obtain ⟨c, hc, hcf, rfl⟩ := (hl q).mp hq
  obtain ⟨bs', he, hinv', -⟩ := heapStep_edit hinv hl hs
  obtain ⟨hc', -⟩ := he.payload_kept hinv.tiled hc hcf (.inr ⟨p, rfl, hpq⟩)
  rw [show y.sizeOf (c.addr + 16) = c.size from hinv'.header_size hc',
    show x.sizeOf (c.addr + 16) = c.size from hinv.header_size hc]

/-- **Freeing distinct live pointers** returns, whatever their order, and leaves the
others as they were. -/
theorem freeAll_live : ∀ {ps : List Nat} {x : HeapSys}, HeapOk x → ps.Nodup →
    (∀ p ∈ ps, p ∈ x.live) →
    ∃ y : HeapSys, freeAll ps x.st = .ok () y.st ∧ HeapOk y ∧ y.live = x.live \ ps.toFinset ∧
      ∀ q ∈ y.live, y.sizeOf q = x.sizeOf q
  | [], x, h, _, _ => ⟨x, rfl, h, by simp, fun _ _ => rfl⟩
  | p :: ps, x, h, hnd, hps => by
    obtain ⟨hp, hnd⟩ := List.nodup_cons.mp hnd
    obtain ⟨s, hr, hstep⟩ := kfree_live h (hps p List.mem_cons_self)
    obtain ⟨y, hry, hy, hlive, hsize⟩ := freeAll_live (x := ⟨s, x.live.erase p⟩) (hstep.ok h) hnd
      fun q hq => Finset.mem_erase.mpr ⟨fun e => hp (e ▸ hq), hps q (List.mem_cons_of_mem _ hq)⟩
    refine ⟨y, (bind_of_ok hr).trans hry, hy, ?_, fun q hq => ?_⟩
    · rw [hlive]
      ext q
      simp only [Finset.mem_sdiff, Finset.mem_erase, List.toFinset_cons, Finset.mem_insert, not_or]
      tauto
    · have hq' := hq
      rw [hlive, Finset.mem_sdiff, Finset.mem_erase] at hq'
      rw [hsize q hq]
      exact kfree_sizeOf h hstep hq'.1.2 (Ne.symm hq'.1.1)

/-- Two orders of the same frees end with the same live pairs. -/
theorem livePairs_congr {x y z : HeapSys} (hlive : y.live = z.live)
    (hy : ∀ q ∈ y.live, y.sizeOf q = x.sizeOf q) (hz : ∀ q ∈ z.live, z.sizeOf q = x.sizeOf q) :
    y.livePairs = z.livePairs := by
  unfold HeapSys.livePairs
  rw [hlive]
  refine Finset.image_congr fun q hq => ?_
  have hq : q ∈ z.live := hq
  simp only [hz q hq, hy q (hlive ▸ hq)]

/-- **Coalescing is complete and order-independent.** -/
theorem heap_coalesced {x : HeapSys} (h : Reach HeapStart HeapStep x) :
    (∃ hs, Blocks x.st.mem.data x.st.kheap.freeList hs ∧
      hs.IsChain fun b c => b.free = 0 ∨ c.free = 0) ∧
    (∀ y, Reach HeapStart HeapStep y → x.livePairs = y.livePairs →
      ∃ ts, Listing x.st ts ∧ Listing y.st ts) ∧
    (∀ ps qs : List Nat, ps.Nodup → (∀ p ∈ ps, p ∈ x.live) → ps.Perm qs →
      ∃ s t ts, freeAll ps x.st = .ok () s ∧ freeAll qs x.st = .ok () t ∧ Listing s ts ∧
        Listing t ts) ∧
    ∀ ps : List Nat, ps.Nodup → (∀ p, p ∈ ps ↔ p ∈ x.live) →
      ∃ s, freeAll ps x.st = .ok () s ∧ Listing s [(kheapStart, kheapSize - headerSize, 1)] := by
  have hok := heapReach_ok h
  refine ⟨?_, fun y hy hpairs => ?_, fun ps qs hnd hps hperm => ?_, fun ps hnd hps => ?_⟩
  · obtain ⟨bs, hinv, -⟩ := hok
    refine ⟨_, hinv.blocks, ?_⟩
    unfold headersOf
    rw [List.isChain_map]
    refine hinv.coalesced.imp_of_mem_imp fun b c hb hc hbc => ?_
    rw [hinv.header_used hb, hinv.header_used hc]
    exact hbc
  · obtain ⟨bs, hinv, hl⟩ := hok
    obtain ⟨cs, hinv', hl'⟩ := heapReach_ok hy
    refine ⟨_, hinv.listing, ?_⟩
    rw [blocks_determined hinv hl hinv' hl' hpairs]
    exact hinv'.listing
  · obtain ⟨y, hry, ⟨bs, hinv, hl⟩, hlive, hsize⟩ := freeAll_live hok hnd hps
    obtain ⟨z, hrz, ⟨cs, hinv', hl'⟩, hlive', hsize'⟩ := freeAll_live hok (hperm.nodup_iff.mp hnd)
      fun q hq => hps q (hperm.mem_iff.mpr hq)
    have hsame : y.live = z.live := by rw [hlive, hlive', List.toFinset_eq_of_perm _ _ hperm]
    refine ⟨y.st, z.st, _, hry, hrz, hinv.listing, ?_⟩
    rw [blocks_determined hinv hl hinv' hl' (livePairs_congr hsame hsize hsize')]
    exact hinv'.listing
  · obtain ⟨y, hry, ⟨bs, hinv, hl⟩, hlive, -⟩ := freeAll_live hok hnd fun p hp => (hps p).mp hp
    have hempty : y.live = ∅ := by
      rw [hlive, Finset.sdiff_eq_empty_iff_subset]
      exact fun p hp => List.mem_toFinset.mpr ((hps p).mpr hp)
    rw [hempty] at hl
    have hbs := blocks_nothing_live hinv hl
    subst hbs
    exact ⟨y.st, hry, hinv.listing⟩

/-- Two pointers, freed in either order: the lists are the same, and the whole heap is restored. -/
theorem heap_coalesced_kmalloc :
    ∃ x, Reach HeapStart HeapStep x ∧ x.live = {0x200010, 0x200038} ∧
      (∃ s t ts, freeAll [0x200010, 0x200038] x.st = .ok () s ∧
        freeAll [0x200038, 0x200010] x.st = .ok () t ∧ Listing s ts ∧ Listing t ts) ∧
      ∃ s, freeAll [0x200010, 0x200038] x.st = .ok () s ∧ Listing s [(0x200000, 0xFFFF0, 1)] := by
  obtain ⟨x, hx, hlive, -⟩ := heapRun_two
  obtain ⟨-, -, horder, hall⟩ := heap_coalesced hx
  have hmem : ∀ p, p ∈ [0x200010, 0x200038] ↔ p ∈ x.live := by simp [hlive]
  exact ⟨x, hx, hlive, horder [0x200010, 0x200038] [0x200038, 0x200010] (by decide)
    (fun p hp => (hmem p).mp hp) (List.Perm.swap _ _ _), hall [0x200010, 0x200038] (by decide) hmem⟩

end Kfs
