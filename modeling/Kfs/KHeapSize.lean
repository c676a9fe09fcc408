import Kfs.KHeapRun

/-!
# What `ksize` reports

`ksize` reads the size word of a header after checking the pointer's range, its
alignment and the magic. The header of a used block is written when the block is
handed out and by nobody until it is freed, so the answer for a live pointer is
the block's size all along (`ksize_stable`); the mark that `kfree` leaves in place
of the magic turns it into 0 until the next `kmalloc`.
-/

namespace Kfs

open Kfs.Lib

/-! ## The checks of `ksize` -/

/-- **Every aligned address in the heap** passes `ksize`'s validation. -/
theorem isValidKheapBlock_any {s : State Flat} {bs : List Blk} (h : HeapRep s bs) {a : Nat}
    (h1 : kheapStart ≤ a) (h2 : a ≤ kheapEnd) (h8 : a % 8 = 0) :
    isValidKheapBlock a s = .ok true s := by
  -- the walk meets the block or the end of the list, and returns 1 in both cases
  have hwalk : ∀ {cs : List Blk} {p n : Nat}, Seg hdrNode s.mem.data p cs 0 →
      (∀ c ∈ cs, c.addr + 16 < 2 ^ 32) → cs.length < n →
      iterate .outOfFuel (fun cur => do
        if cur = 0 then return .inr true
        if cur = a then return .inr true
        return .inl (← ld (cur + 12)) : Nat → K Flat (Nat ⊕ Bool)) n p s = .ok true s := by
    intro cs
    induction cs with
    | nil =>
      rintro p (_ | n) hseg - hn
      · omega
      · have hp : p = 0 := hseg
        subst hp
        exact iterate_done rfl
    | cons c cs ih =>
      rintro p (_ | n) hseg hlim hn
      · omega
      · obtain ⟨hp, hnull, -, hrest⟩ := hseg
        by_cases hpa : p = a
        · refine iterate_done ?_
          simp only [if_neg hnull, if_pos hpa]
          rfl
        · have hlt := hlim c List.mem_cons_self
          have hp' : p = c.addr := hp
          have hstep : (do
              if p = 0 then return .inr true
              if p = a then return .inr true
              return .inl (← ld (p + 12)) : K Flat (Nat ⊕ Bool)) s =
              .ok (.inl (load32 s.mem.data (p + 12))) s := by
            simp only [if_neg hnull, if_neg hpa]
            rw [bind_of_ok (ld_flat (by omega) s)]
            rfl
          rw [iterate_next hstep]
          refine ih hrest (fun d hd => hlim d (List.mem_cons_of_mem _ hd)) ?_
          simp only [List.length_cons] at hn
          omega
  have hbase := h.base
  have hsize := h.size
  simp only [kheapStart, kheapEnd] at h1 h2
  unfold isValidKheapBlock
  rw [get_bind_apply, hbase, hsize, if_neg, and_seven, if_neg (by omega), h.start]
  swap
  · simp only [Bool.or_eq_true, decide_eq_true_eq]
    simp only [add32, kheapStart, kheapSize, kheapEnd]
    omega
  refine hwalk h.list (fun c hc => ?_) h.length_lt
  have := h.bounds hc
  omega

/-- So `ksize` gives what lies 16 bytes below an address, if a magic lies 8 below it. -/
theorem ksize_any {s : State Flat} {bs : List Blk} (h : HeapRep s bs) {a : Nat}
    (h1 : kheapStart + 16 ≤ a) (h2 : a ≤ kheapEnd) (h8 : a % 8 = 0)
    (hm : load32 s.mem.data (a - 8) = magicAllocated) :
    ksize a s = .ok (load32 s.mem.data (a - 16)) s := by
  have hbase := h.base
  have hsize := h.size
  have hvalid := isValidKheapBlock_any h (a := a - 16) (by omega) (by omega) (by omega)
  simp only [kheapStart, kheapEnd] at h1 h2
  have hblk : sub32 a headerSize = a - 16 := sub32_eq (by simp only [headerSize]; omega) (by omega)
  unfold ksize
  rw [if_neg (by omega), get_bind_apply, hbase, hsize, if_neg]
  swap
  · simp only [Bool.or_eq_true, decide_eq_true_eq]
    simp only [add32, kheapStart, kheapSize, kheapEnd]
    omega
  rw [hblk, show a - 16 + 8 = a - 8 by omega, bind_of_ok (ld_flat (by omega) s), hm,
    if_neg (by simp), bind_of_ok hvalid]
  exact ld_flat (by omega) s

theorem ksize_marked {s : State Flat} {bs : List Blk} (h : HeapRep s bs) {a : Nat}
    (h1 : kheapStart + 16 ≤ a) (h2 : a < 2 ^ 32) (hm : load32 s.mem.data (a - 8) = magicFreed) :
    ksize a s = .ok 0 s := by
  have hbase := h.base
  have hsize := h.size
  simp only [kheapStart] at h1
  have hblk : sub32 a headerSize = a - 16 := sub32_eq (by simp only [headerSize]; omega) (by omega)
  unfold ksize
  rw [if_neg (by omega), get_bind_apply, hbase, hsize]
  split
  · rfl
  · rw [hblk]
    dsimp only
    rw [show a - 16 + 8 = a - 8 by omega, bind_of_ok (ld_flat (by omega) s), hm,
      if_pos (by decide)]
    rfl

/-! ## Live blocks -/

def HeapHolds (b : Blk) (x : HeapSys) : Prop :=
  ∃ bs, HeapInv x.st bs ∧ LiveOf x.live bs ∧ b ∈ bs ∧ b.free = false

theorem HeapHolds.step {b : Blk} {x y : HeapSys} {op : HeapOp} (h : HeapHolds b x)
    (hop : op ≠ .kfree (b.addr + 16)) (hs : HeapStep x op y) : HeapHolds b y := by
  obtain ⟨bs, hinv, hl, hb, hused⟩ := h
  obtain ⟨bs', hedit, hinv', hl'⟩ := heapStep_edit hinv hl hs
  exact ⟨bs', hinv', hl', hedit.block_kept hb hused hop, hused⟩

theorem HeapHolds.ksize {b : Blk} {x : HeapSys} (h : HeapHolds b x) (hpos : 0 < b.size) :
    ksize (b.addr + 16) x.st = .ok b.size x.st := by
  obtain ⟨bs, hinv, -, hb, hused⟩ := h
  have hbnd := hinv.bounds hb
  have hmod := hinv.rep.addr_mod hb
  have hhold := hinv.list.holds b hb
  have hany := ksize_any hinv.rep (a := b.addr + 16) (by simp only [kheapStart]; omega)
    (by simp only [kheapEnd]; omega) (by omega) (hhold.2.2 hused)
  rw [Nat.add_sub_cancel] at hany
  rw [hany, hhold.1]

/-! ## Freed blocks -/

/-- A state since block `b` of the list `bs₀` was freed, without a `kmalloc`. -/
structure HeapMarked (bs₀ : List Blk) (b : Blk) (x : HeapSys) : Prop where
  list : ∃ bs, HeapInv x.st bs ∧ LiveOf x.live bs ∧ Since Blk.addr Blk.free bs₀ bs
  mark : load32 x.st.mem.data (b.addr + 8) = magicFreed

theorem kfree_keeps_mark (h : HeapInv s (pre ++ c :: post)) (hc : c.free = false)
    (hsince : Since Blk.addr Blk.free bs₀ (pre ++ c :: post))
    (hap : bs₀.Pairwise fun b c => b.addr + 16 + b.size ≤ c.addr)
    (hb : b ∈ bs₀) (hf : b.free = true) :
    ∃ s', kfree (c.addr + 16) s = .ok () s' ∧
      load32 s'.mem.data (b.addr + 8) = load32 s.mem.data (b.addr + 8) := by
  obtain ⟨m, hr, -, -, hsame, -⟩ := kfree_links h.rep hc
  have hlinks : Since Blk.addr Blk.free bs₀ (pre ++ c.release :: post) :=
    hsince.trans (.free_at rfl rfl)
  refine ⟨_, hr, ?_⟩
  show load32 m (b.addr + 8) = _
  rw [hsame.load32]
  · -- `c` was used when `b` was free, so its mark is elsewhere
    rcases hsince.apart hap hb hf (c := c) (by simp) hc with hsep | hsep
    · unfold marked
      rw [load32_store32_ne (by omega), load32_store32_ne (by omega)]
    · unfold marked
      rw [load32_store32_ne (by omega), load32_store32_ne (by omega)]
  · rintro x h1 h2 ⟨y, hy, h3⟩
    obtain ⟨y₀, hy₀, haddr, -⟩ := hlinks y hy
    rw [← haddr] at h3
    rcases pairwise_mem hap hb hy₀ with rfl | hsep | hsep <;> omega

/-- No step but a `kmalloc` touches the mark of a freed block. -/
theorem HeapMarked.step {bs₀ : List Blk} {b : Blk} {x y : HeapSys} {op : HeapOp}
    (hap : bs₀.Pairwise fun b c => b.addr + 16 + b.size ≤ c.addr)
    (hb : b ∈ bs₀) (hf : b.free = true)
    (h : HeapMarked bs₀ b x) (hop : ∀ n, op ≠ .kmalloc n) (hs : HeapStep x op y) :
    HeapMarked bs₀ b y := by
  obtain ⟨bs, hinv, hl, hsince⟩ := h.list
  obtain ⟨bs', hedit, hinv', hl'⟩ := heapStep_edit hinv hl hs
  cases hedit with
  | nothing _ => exact absurd rfl (hop 0)
  | @serve _ _ _ n _ _ _ _ _ => exact absurd rfl (hop n)
  | @release pre post c hused _ _ =>
    obtain ⟨s₁, hr, hsame⟩ := kfree_keeps_mark hinv hused hsince hap hb hf
    have heq : y.st = s₁ := by
      have hr' : kfree (c.addr + 16) x.st = .ok () y.st := hs.2.1
      rw [hr] at hr'
      injection hr' with _ heq
      exact heq.symm
    have hfree : Since Blk.addr Blk.free (pre ++ c :: post) (pre ++ c.release :: post) :=
      .free_at rfl rfl
    refine ⟨⟨_, hinv', hl', hsince.trans (hfree.trans (coalesce_since 16 _))⟩, ?_⟩
    rw [heq]
    exact hsame.trans h.mark
  | @write _ c a v hcm hused h1 h2 hst =>
    refine ⟨⟨_, hinv', hl', hsince⟩, ?_⟩
    have hne : a < b.addr + 8 ∨ b.addr + 12 ≤ a := by
      rcases hsince.apart hap hb hf hcm hused with hsep | hsep
      · omega
      · omega
    have hbyte : SameOff (· = a) x.st.mem.data (storeByte x.st.mem.data a v) :=
      fun x hx => storeByte_other hx
    rw [hst]
    exact (hbyte.load32 fun x _ _ _ => by omega).trans h.mark

theorem HeapHolds.freed {b : Blk} {x y : HeapSys} (h : HeapHolds b x)
    (hs : HeapStep x (.kfree (b.addr + 16)) y) : ∃ bs₀,
      bs₀.Pairwise (fun b c => b.addr + 16 + b.size ≤ c.addr) ∧ b.release ∈ bs₀ ∧
        HeapMarked bs₀ b.release y := by
  obtain ⟨bs, hinv, hl, hb, hused⟩ := h
  obtain ⟨pre, post, rfl⟩ := List.append_of_mem hb
  obtain ⟨s₁, hr, hinv', -, -, -, hmark⟩ := kfree_spec hinv hused
  obtain ⟨-, hr', hlive⟩ := hs
  rw [hr] at hr'
  injection hr' with _ heq
  subst heq
  refine ⟨pre ++ b.release :: post, (release_tiled hinv.tiled).apart, by simp,
    ⟨_, hinv', ?_, coalesce_since 16 _⟩, hmark⟩
  rw [hlive]
  exact hl.release hinv.tiled

/-! ## Over a run -/

/-- What `kmalloc` hands out is the rounded request, or up to 24 bytes more. -/
theorem serve_slack {b : Blk} {r : Nat} (hb : b.Fits r) (hr : r % 8 = 0) (hz : b.size % 8 = 0) :
    ∃ c ∈ b.serve 16 16 r, c.addr = b.addr ∧ c.free = false ∧ r ≤ c.size ∧ c.size ≤ r + 24 := by
  have hfit := hb.2
  unfold Blk.serve
  split
  · exact ⟨_, List.mem_cons_self, rfl, rfl, Nat.le_refl _, by simp only; omega⟩
  · exact ⟨_, List.mem_cons_self, rfl, rfl, hfit, by simp only; omega⟩

theorem HeapStep.handed {x y : HeapSys} {n p : Nat} (hx : HeapOk x) (hn : n ≠ 0)
    (hs : HeapStep x (.kmalloc n) y) (hr : kmalloc n x.st = .ok p y.st) :
    ∃ b, HeapHolds b y ∧ p = b.addr + 16 ∧ round8 n ≤ b.size ∧ b.size ≤ round8 n + 24 := by
  obtain ⟨bs, hinv, hl⟩ := hx
  obtain ⟨bs', hedit, hinv', hl'⟩ := heapStep_edit hinv hl hs
  cases hedit with
  | nothing _ => exact absurd rfl hn
  | @serve pre post b _ _ hpre hfit _ _ =>
    obtain ⟨s', hk, -⟩ := kmalloc_hit hinv hn hpre hfit
    rw [hk] at hr
    injection hr with hp _
    obtain ⟨c, hc, haddr, hused, hlo, hhi⟩ :=
      serve_slack hfit (round8_mod n) (hinv.align b (by simp))
    exact ⟨c, ⟨_, hinv', hl', by simp [hc], hused⟩, by rw [← hp, haddr], hlo, hhi⟩

/-- **`ksize` is exact and stable.** In every run of the kernel heap, what a call of
`kmalloc(n)` returned has one size, the request rounded up to a multiple of 8 or at most
24 bytes more: `ksize` reports it after every further run that does not free the pointer,
and 0 after the `kfree` until the next `kmalloc`. -/
theorem ksize_stable {x y : HeapSys} (hx : Reach HeapStart HeapStep x) {n p : Nat} (hn : 1 ≤ n)
    (hn' : n ≤ 0xFFFFFFF8) (hs : HeapStep x (.kmalloc n) y) (hr : kmalloc n x.st = .ok p y.st) :
    ∃ v, (n + 7) / 8 * 8 ≤ v ∧ v ≤ (n + 7) / 8 * 8 + 24 ∧
      ∀ tr, Trace HeapStep y tr → Meets (fun _ op => op ≠ .kfree p) y tr →
        ksize p (lastOf y tr).st = .ok v (lastOf y tr).st ∧
        ∀ z, HeapStep (lastOf y tr) (.kfree p) z →
          ∀ tr', Trace HeapStep z tr' → Meets (fun _ op => ∀ m, op ≠ .kmalloc m) z tr' →
            ksize p (lastOf z tr').st = .ok 0 (lastOf z tr').st := by
  obtain ⟨b, hb, rfl, hlo, hhi⟩ := hs.handed (heapReach_ok hx) (by omega) hr
  have hround : round8 n = (n + 7) / 8 * 8 := round8_eq hn'
  rw [hround] at hlo hhi
  refine ⟨b.size, hlo, hhi, fun tr ht hm => ?_⟩
  have hlast : HeapHolds b (lastOf y tr) :=
    ht.inv (fun _ _ _ hI hc hstep => HeapHolds.step hI hc hstep) hm hb
  refine ⟨hlast.ksize (by omega), fun z hz tr' ht' hm' => ?_⟩
  obtain ⟨bs₀, hap, hmem, hmarked⟩ := hlast.freed hz
  have hlast' : HeapMarked bs₀ b.release (lastOf z tr') :=
    ht'.inv (fun _ _ _ hI hc hstep => HeapMarked.step hap hmem rfl hI hc hstep) hm' hmarked
  obtain ⟨bs, hinv, -, -⟩ := hlast'.list
  obtain ⟨cs, hinv₀, -, hb₀, -⟩ := hlast
  have hbnd := hinv₀.bounds hb₀
  exact ksize_marked hinv.rep (by simp only [kheapStart]; omega) (by omega) hlast'.mark

/-- Of a third request: the blocks on both sides of it are freed, one before it and one after. -/
theorem ksize_stable_first : ∃ x y z w u, Reach HeapStart HeapStep x ∧
    x.live = {0x200010, 0x200038} ∧
    HeapStep x (.kmalloc 20) y ∧ kmalloc 20 x.st = .ok 0x2000B0 y.st ∧
    HeapStep y (.kfree 0x200010) z ∧ HeapStep z (.kfree 0x2000B0) w ∧
    HeapStep w (.kfree 0x200038) u ∧
    (∃ v, 24 ≤ v ∧ v ≤ 48 ∧ ksize 0x2000B0 z.st = .ok v z.st) ∧
    ksize 0x2000B0 u.st = .ok 0 u.st := by
  obtain ⟨x, hx, hlive, hinv⟩ := heapRun_two
  have hpre : ∀ c ∈ [⟨0x200000, 24, false⟩, ⟨0x200028, 104, false⟩], ¬ Blk.Fits (round8 20) c := by
    simp [Blk.Fits]
  obtain ⟨s₁, hk, hinv₁, -⟩ := kmalloc_hit (n := 20) (show HeapInv x.st ([⟨0x200000, 24, false⟩,
    ⟨0x200028, 104, false⟩] ++ ⟨0x2000A0, 0xFFF50, true⟩ :: []) from hinv)
      (by decide) hpre (by decide)
  obtain ⟨s₂, hf₂, hinv₂, -⟩ := kfree_spec (show HeapInv s₁ ([] ++ ⟨0x200000, 24, false⟩ ::
    [⟨0x200028, 104, false⟩, ⟨0x2000A0, 24, false⟩, ⟨0x2000C8, 0xFFF28, true⟩]) from hinv₁) rfl
  obtain ⟨s₃, hf₃, hinv₃, -⟩ := kfree_spec (show HeapInv s₂ ([⟨0x200000, 24, true⟩,
    ⟨0x200028, 104, false⟩] ++ ⟨0x2000A0, 24, false⟩ :: [⟨0x2000C8, 0xFFF28, true⟩]) from hinv₂) rfl
  obtain ⟨s₄, hf₄, -⟩ := kfree_spec (show HeapInv s₃ ([⟨0x200000, 24, true⟩] ++
    ⟨0x200028, 104, false⟩ :: [⟨0x2000A0, 0xFFF50, true⟩]) from hinv₃) rfl
  obtain ⟨L, hL⟩ : ∃ L, L = insert 0x2000B0 x.live := ⟨_, rfl⟩
  have hmem : ∀ p, p = 0x2000B0 ∨ p = 0x200010 ∨ p = 0x200038 → p ∈ L := by simp [hL, hlive]
  have hs : HeapStep x (.kmalloc 20) ⟨s₁, L⟩ := ⟨by decide, _, hk, hL⟩
  have hs₂ : HeapStep ⟨s₁, L⟩ (.kfree 0x200010) ⟨s₂, L.erase 0x200010⟩ :=
    ⟨hmem _ (by simp), hf₂, rfl⟩
  have hs₃ :
      HeapStep ⟨s₂, L.erase 0x200010⟩ (.kfree 0x2000B0) ⟨s₃, (L.erase 0x200010).erase 0x2000B0⟩ :=
    ⟨Finset.mem_erase.mpr ⟨by decide, hmem _ (by simp)⟩, hf₃, rfl⟩
  have hs₄ : HeapStep ⟨s₃, (L.erase 0x200010).erase 0x2000B0⟩ (.kfree 0x200038)
      ⟨s₄, ((L.erase 0x200010).erase 0x2000B0).erase 0x200038⟩ :=
    ⟨Finset.mem_erase.mpr ⟨by decide, Finset.mem_erase.mpr ⟨by decide, hmem _ (by simp)⟩⟩, hf₄, rfl⟩
  obtain ⟨v, hlo, hhi, hall⟩ := ksize_stable hx (by decide) (by decide) hs hk
  obtain ⟨hsize, hfreed⟩ := hall [(.kfree 0x200010, _)] ⟨hs₂, trivial⟩ ⟨by simp, trivial⟩
  exact ⟨x, _, _, _, _, hx, hlive, hs, hk, hs₂, hs₃, hs₄, ⟨v, hlo, hhi, hsize⟩,
    hfreed _ hs₃ [(.kfree 0x200038, _)] ⟨hs₄, trivial⟩ ⟨by simp, trivial⟩⟩

end Kfs
