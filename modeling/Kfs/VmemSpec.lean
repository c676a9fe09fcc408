import Kfs.VmemInv

/-!
# What `vmalloc` and `vfree` do to the list

One specification for each part of `vmem.c` that works on the list: the search,
serving a block, appending one, and freeing with its single merge. Mapping the
pages of a new block is left to the two models of memory; here it is what
happens between `vmalloc_full` and `vmemAppend_spec`.
-/

namespace Kfs

open Kfs.Lib

variable {M : Type} [Bus M] {P : Port M} {s : State M}

/-! ## The search -/

section Search

variable {r e : Nat}

theorem vmemFits_eq (hP : P.IsData) (h : Plain P s.mem (vmemWindow e)) {b : VBlk}
    (hb : vNode.holds (P.view s) b) (h1 : kvmemStart ≤ b.addr) (h2 : b.addr + 20 ≤ e)
    (he : e ≤ 0xC00000) : vmemFits b.addr r s = .ok (decide (b.Fits r)) s := by
  obtain ⟨hsize, hfree, -, -⟩ := hb
  have hld : ∀ i, i ≤ 16 → ld (b.addr + i) s = .ok (load32 (P.view s) (b.addr + i)) s :=
    fun i hi => h.ld_view hP (by omega) fun x _ _ => .inr ⟨by omega, by omega⟩
  have h1 : (do return (← ld (b.addr + 8)) ≠ 0 : K M Bool) s = .ok b.free s := by
    rw [bind_of_ok (hld 8 (by omega)), hfree, pure_apply]
    cases b.free <;> rfl
  have hld0 : ld b.addr s = .ok b.size s := by
    rw [← hsize]
    exact hld 0 (by omega)
  have h2 : (do return (← ld b.addr) ≥ r : K M Bool) s = .ok (decide (r ≤ b.size)) s := by
    rw [bind_of_ok hld0, pure_apply]
  have h3 : (b.free && decide (r ≤ b.size)) = decide (b.Fits r) := by
    rw [Bool.eq_iff_iff, decide_eq_true_iff]
    simp [VBlk.Fits]
  rw [vmemFits, andThen_pure h1 fun _ => h2, h3]

theorem vmallocStep_skip (hP : P.IsData) (h : Plain P s.mem (vmemWindow e)) {b : VBlk} (pv : Nat)
    (hb : vNode.holds (P.view s) b) (h1 : kvmemStart ≤ b.addr) (h2 : b.addr + 20 ≤ e)
    (he : e ≤ 0xC00000) (hf : ¬ b.Fits r) :
    vmallocStep r (pv, b.addr) s = .ok (.inl (b.addr, load32 (P.view s) (b.addr + 16))) s := by
  have hnull : b.addr ≠ 0 := by simp only [kvmemStart] at h1; omega
  unfold vmallocStep
  simp only [hnull, ↓reduceIte]
  rw [bind_of_ok (vmemFits_eq hP h hb h1 h2 he)]
  simp only [hf, decide_false, Bool.false_eq_true, ↓reduceIte]
  rw [bind_of_ok (h.ld_view hP (by omega) fun x _ _ => .inr ⟨by omega, by omega⟩)]
  rfl

/-- The last block of a list, `pv` for the empty one. -/
def lastAddr (pv : Nat) : List VBlk → Nat
  | [] => pv
  | b :: bs => lastAddr b.addr bs

theorem vsearch_skip (hP : P.IsData) (h : Plain P s.mem (vmemWindow e)) (he : e ≤ 0xC00000)
    {p q n pv : Nat} {pre : List VBlk} (hseg : Seg vNode (P.view s) p pre q)
    (hin : ∀ b ∈ pre, kvmemStart ≤ b.addr ∧ b.addr + 20 ≤ e) (hf : ∀ b ∈ pre, ¬ b.Fits r) :
    iterate .outOfFuel (vmallocStep r) (n + pre.length) (pv, p) s =
      iterate .outOfFuel (vmallocStep r) n (lastAddr pv pre, q) s := by
  induction pre generalizing p pv with
  | nil =>
    have : p = q := hseg
    rw [this]
    rfl
  | cons b pre ih =>
    obtain ⟨hp, -, hb, hrest⟩ := hseg
    have hp : p = b.addr := hp
    subst hp
    have hbin := hin b List.mem_cons_self
    have hstep := vmallocStep_skip hP h pv hb hbin.1 hbin.2 he (hf b List.mem_cons_self)
    rw [List.length_cons, ← Nat.add_assoc, iterate_next hstep]
    exact ih hrest (fun c hc => hin c (List.mem_cons_of_mem _ hc))
      fun c hc => hf c (List.mem_cons_of_mem _ hc)

/-- The whole search: past the blocks `pre`, none of which fits, to the step that ends it. -/
theorem vsearch_ends (hP : P.IsData) (h : Plain P s.mem (vmemWindow e)) (he : e ≤ 0xC00000)
    {q : Nat} {pre : List VBlk} {res : VSearch} {s' : State M}
    (hseg : Seg vNode (P.view s) s.vmem.vmemList pre q)
    (hin : ∀ b ∈ pre, kvmemStart ≤ b.addr ∧ b.addr + 20 ≤ e) (hlen : pre.length < maxRounds)
    (hf : ∀ b ∈ pre, ¬ b.Fits r)
    (hstep : vmallocStep r (lastAddr 0 pre, q) s = .ok (.inr res) s') :
    iterate .outOfFuel (vmallocStep r) maxRounds (0, s.vmem.vmemList) s = .ok res s' := by
  obtain ⟨k, hk⟩ : ∃ k, maxRounds = k + 1 + pre.length := ⟨maxRounds - pre.length - 1, by omega⟩
  rw [hk, vsearch_skip hP h he hseg hin hf, iterate_done hstep]

end Search

/-! ## Serving a block -/

/-- The memory after the block at `a` of size `z` has served `r` bytes. -/
def vserved (m : Mem) (a z r : Nat) : Mem :=
  let m' :=
    if r + 36 ≤ z then
      let n := a + 20 + r
      store32 (store32 (store32 (store32 (store32 m n (z - r - 20)) (n + 8) 1) (n + 16)
        (load32 m (a + 16))) a r) (a + 16) n
    else m
  store32 (store32 m' (a + 8) 0) (a + 12) vmemMagicAllocated

theorem vmemServe_eq (hP : P.IsData) {e a z r : Nat} (h : Plain P s.mem (vmemWindow e))
    (hz : load32 (P.view s) a = z) (hr : r ≤ z) (hlo : kvmemStart ≤ a) (hend : a + 20 + z ≤ e)
    (he : e ≤ 0xC00000) : vmemServe a r s = .ok () (P.put s (vserved (P.view s) a z r)) := by
  -- accesses inside the block
  have hW : ∀ {b}, a ≤ b → b + 4 ≤ a + 20 + z → ∀ x, b ≤ x → x < b + 4 → vmemWindow e x :=
    fun h1 h2 x _ _ => .inr ⟨by omega, by omega⟩
  have hst : ∀ {d b} v, SameOff (vmemWindow e) (P.view s) d → a ≤ b → b + 4 ≤ a + 20 + z →
      st b v (P.put s d) = .ok () (P.put s (store32 d b v)) :=
    fun v hd h1 h2 => h.st hP hd (by omega) (hW h1 h2) v
  have hso : ∀ {d b v}, SameOff (vmemWindow e) (P.view s) d → a ≤ b → b + 4 ≤ a + 20 + z →
      SameOff (vmemWindow e) (P.view s) (store32 d b v) :=
    fun hd h1 h2 => hd.store32 (hW h1 h2)
  have h0 := SameOff.refl (vmemWindow e) (P.view s)
  have hneed : add32 (add32 r vmemHeader) 16 = r + 36 := by
    simp only [vmemHeader, add32]
    omega
  unfold vmemServe vserved
  rw [bind_of_ok (h.ld_view hP (by omega) (hW (Nat.le_refl a) (by omega))), hz, hneed]
  by_cases hsplit : r + 36 ≤ z
  · have hn : add32 (add32 a vmemHeader) r = a + 20 + r := by
      simp only [vmemHeader, add32]
      omega
    have hrest : sub32 (sub32 z r) vmemHeader = z - r - 20 := by
      simp only [vmemHeader, sub32]
      omega
    simp only [ge_iff_le, hsplit, ↓reduceIte, hn, hrest]
    have e1 := hst (z - r - 20) h0 (b := a + 20 + r) (by omega) (by omega)
    rw [P.put_view] at e1
    have s1 := hso h0 (b := a + 20 + r) (v := z - r - 20) (by omega) (by omega)
    have s2 := hso s1 (b := a + 20 + r + 8) (v := 1) (by omega) (by omega)
    have hq : load32 (store32 (store32 (P.view s) (a + 20 + r) (z - r - 20)) (a + 20 + r + 8) 1)
        (a + 16) = load32 (P.view s) (a + 16) := by
      rw [load32_store32_ne (by omega), load32_store32_ne (by omega)]
    have s3 := hso s2 (b := a + 20 + r + 16) (v := load32 (P.view s) (a + 16)) (by omega) (by omega)
    have s4 := hso s3 (b := a) (v := r) (by omega) (by omega)
    have s5 := hso s4 (b := a + 16) (v := a + 20 + r) (by omega) (by omega)
    have s6 := hso s5 (b := a + 8) (v := 0) (by omega) (by omega)
    rw [bind_of_ok e1, bind_of_ok (hst 1 s1 (by omega) (by omega)),
      bind_of_ok (h.ld hP s2 (by omega) (hW (by omega) (by omega))), hq,
      bind_of_ok (hst _ s2 (by omega) (by omega)), bind_of_ok (hst _ s3 (by omega) (by omega)),
      bind_of_ok (hst _ s4 (by omega) (by omega)), bind_of_ok (hst _ s5 (by omega) (by omega)),
      hst _ s6 (by omega) (by omega)]
  · simp only [ge_iff_le, hsplit, ↓reduceIte]
    have e1 := hst 0 h0 (b := a + 8) (by omega) (by omega)
    rw [P.put_view] at e1
    rw [bind_of_ok e1, hst _ (hso h0 (by omega) (by omega)) (by omega) (by omega)]

theorem vserved_same {m : Mem} {b : VBlk} {r : Nat} :
    SameOff (InVHeader (b.serve r)) m (vserved m b.addr b.size r) := by
  have hhead : ∀ {x}, b.addr ≤ x → x < b.addr + 20 → InVHeader (b.serve r) x := by
    intro x h1 h2
    unfold VBlk.serve
    split
    · exact ⟨_, List.mem_cons_self, h1, h2⟩
    · exact ⟨_, List.mem_cons_self, h1, h2⟩
  unfold vserved
  refine SameOff.store32 (SameOff.store32 ?_ fun x _ _ => hhead (by omega) (by omega)) fun x _ _ =>
    hhead (by omega) (by omega)
  split
  · next hsplit =>
    have hnew : ∀ {x}, b.addr + 20 + r ≤ x → x < b.addr + 20 + r + 20 →
      InVHeader (b.serve r) x := by
      intro x h1 h2
      unfold VBlk.serve
      rw [if_pos hsplit]
      exact ⟨_, List.mem_cons_of_mem _ List.mem_cons_self, h1, h2⟩
    refine SameOff.store32 (SameOff.store32 (SameOff.store32 (SameOff.store32 (SameOff.store32
      (SameOff.refl _ _) ?_) ?_) ?_) ?_) ?_ <;> intro x _ _
    · exact hnew (by omega) (by omega)
    · exact hnew (by omega) (by omega)
    · exact hnew (by omega) (by omega)
    · exact hhead (by omega) (by omega)
    · exact hhead (by omega) (by omega)
  · exact SameOff.refl _ _

theorem vserved_stores {m : Mem} {a z r : Nat} (ha : a % 4 = 0) (hz : z % 4 = 0) (hr : r % 4 = 0)
    (hlim : a + 20 + z < 2 ^ 24) (hq : Inert vmemMagicAllocated (load32 m (a + 16))) :
    MarkStores vmemMagicAllocated (· = a + 12) m (vserved m a z r) := by
  refine .mark (.store ?_ (by omega) inert_zero) (by omega) rfl
  split
  · refine .store (.store (.store (.store (.store .refl ?_ ?_) ?_ inert_one) ?_ hq) ?_ ?_) ?_ ?_
    all_goals first | omega | exact inert_aligned (by omega) (by omega)
  · exact .refl

theorem vserved_seg {m : Mem} {b : VBlk} {r : Nat} (hb : vNode.holds m b) (hnull : b.addr ≠ 0)
    (hlim : b.addr + 20 + b.size < 2 ^ 32) :
    Seg vNode (vserved m b.addr b.size r) b.addr (b.serve r) (load32 m (b.addr + 16)) := by
  have hq := load32_lt m (b.addr + 16)
  obtain ⟨hsize, -, -, hcap⟩ := hb
  unfold vserved VBlk.serve
  by_cases hsplit : r + 36 ≤ b.size
  · rw [if_pos hsplit, if_pos hsplit]
    refine ⟨rfl, hnull, ⟨?_, ?_, fun _ => ?_, fun c hc => ?_⟩, ?_⟩
    · show load32 _ b.addr = r
      simp (disch := omega) only [load32_store32_ne, load32_store32]
    · show load32 _ (b.addr + 8) = 0
      simp (disch := omega) only [load32_store32_ne, load32_store32]
    · show load32 _ (b.addr + 12) = vmemMagicAllocated
      rw [load32_store32 (by decide)]
    · show load32 _ (b.addr + 4) = c
      simp (disch := omega) only [load32_store32_ne]
      exact hcap c hc
    · show Seg vNode _ (load32 _ (b.addr + 16)) _ _
      have hn : load32 (store32 (store32 (store32 (store32 (store32 (store32 (store32 m
          (b.addr + 20 + r) (b.size - r - 20)) (b.addr + 20 + r + 8) 1) (b.addr + 20 + r + 16)
          (load32 m (b.addr + 16))) b.addr r) (b.addr + 16) (b.addr + 20 + r)) (b.addr + 8) 0)
          (b.addr + 12) vmemMagicAllocated) (b.addr + 16) = b.addr + 20 + r := by
        simp (disch := omega) only [load32_store32_ne, load32_store32]
      rw [hn]
      refine ⟨rfl, by omega, ⟨?_, ?_, ?_, ?_⟩, ?_⟩
      · show load32 _ (b.addr + 20 + r) = b.size - r - 20
        simp (disch := omega) only [load32_store32_ne, load32_store32]
      · show load32 _ (b.addr + 20 + r + 8) = 1
        simp (disch := omega) only [load32_store32_ne, load32_store32]
      · intro hf
        cases hf
      · intro c hc
        cases hc
      · show load32 _ (b.addr + 20 + r + 16) = load32 m (b.addr + 16)
        simp (disch := omega) only [load32_store32_ne, load32_store32]
  · rw [if_neg hsplit, if_neg hsplit]
    refine ⟨rfl, hnull, ⟨?_, ?_, fun _ => ?_, fun c hc => ?_⟩, ?_⟩
    · show load32 _ b.addr = b.size
      simp (disch := omega) only [load32_store32_ne]
      exact hsize
    · show load32 _ (b.addr + 8) = 0
      simp (disch := omega) only [load32_store32_ne, load32_store32]
    · show load32 _ (b.addr + 12) = vmemMagicAllocated
      rw [load32_store32 (by decide)]
    · show load32 _ (b.addr + 4) = c
      simp (disch := omega) only [load32_store32_ne]
      exact hcap c hc
    · show load32 _ (b.addr + 16) = load32 m (b.addr + 16)
      simp (disch := omega) only [load32_store32_ne]

/-! ## `vmalloc` -/

/-- **`vmalloc` with room**: the first block that fits is served. -/
theorem vmalloc_hit (hP : P.IsData) (img : Image) {pre post : List VBlk} {b : VBlk} {n : Nat}
    (h : VmemInv P s (pre ++ b :: post)) (hp : Plain P s.mem (vmemWindow s.vmem.vmemCurrent))
    (hn : n ≠ 0) (hpre : ∀ c ∈ pre, ¬ c.Fits (round8 n)) (hb : b.Fits (round8 n)) :
    ∃ d, vmalloc img n s = .ok (b.addr + 20) (P.put s d) ∧
      VmemInv P (P.put s d) (pre ++ b.serve (round8 n) ++ post) ∧
      d = vserved (P.view s) b.addr b.size (round8 n) := by
  have hlen := h.length_lt
  have hbin := h.mem (b := b) (by simp)
  obtain ⟨p, hseg, hp', hnull, hhold, hpost⟩ := seg_append.mp h.list
  have hp' : p = b.addr := hp'
  subst hp'
  have hsame := vserved_same (m := P.view s) (b := b) (r := round8 n)
  have hother : ∀ c ∈ pre ++ post, ∀ x, c.addr ≤ x → x < c.addr + 20 →
      vserved (P.view s) b.addr b.size (round8 n) x = P.view s x := by
    intro c hc x h1 h2
    refine hsame x fun hx => ?_
    have hx := VBlk.serve_header hx
    have := pairwise_split h.blocks.apart hc
    omega
  refine ⟨_, ?_, ⟨?_, h.blocks.serve (round8_mod n), h.lo, h.hi, h.page⟩, rfl⟩
  · have hstep : vmallocStep (round8 n) (lastAddr 0 pre, b.addr) s =
        .ok (.inr (.found (b.addr + 20)))
          (P.put s (vserved (P.view s) b.addr b.size (round8 n))) := by
      unfold vmallocStep
      simp only [hnull, ↓reduceIte]
      rw [bind_of_ok (vmemFits_eq hP hp hhold hbin.1 (by omega) h.hi)]
      simp only [hb, decide_true, ↓reduceIte]
      rw [bind_of_ok (vmemServe_eq hP hp hhold.1 hb.2 hbin.1 hbin.2.1 h.hi)]
      simp only [vmemHeader, add32_eq (show b.addr + 20 < 2 ^ 32 by omega), pure_apply]
    simp only [List.length_append, List.length_cons] at hlen
    unfold vmalloc
    rw [if_neg hn, get_bind_apply]
    refine (bind_of_ok
      (vsearch_ends hP hp h.hi hseg (fun c hc => ?_) (by omega) hpre hstep)).trans rfl
    have := h.mem (b := c) (by simp [hc])
    exact ⟨this.1, by omega⟩
  · rw [P.view_put, List.append_assoc, seg_append]
    refine ⟨b.addr, hseg.frame fun c hc => hother c (by simp [hc]), ?_⟩
    rw [seg_append]
    exact ⟨_, vserved_seg hhold hnull (by omega), hpost.frame fun c hc => hother c (by simp [hc])⟩

/-- **`vmalloc` without room** goes on to expand the region. -/
theorem vmalloc_full (hP : P.IsData) (img : Image) {bs : List VBlk} {n : Nat} (h : VmemInv P s bs)
    (hp : Plain P s.mem (vmemWindow s.vmem.vmemCurrent)) (hn : n ≠ 0)
    (hbs : ∀ c ∈ bs, ¬ c.Fits (round8 n)) :
    vmalloc img n s = vmallocExpand img (round8 n) (lastAddr 0 bs) s := by
  have hlast : vmallocStep (round8 n) (lastAddr 0 bs, 0) s =
      .ok (.inr (.last (lastAddr 0 bs))) s := rfl
  unfold vmalloc
  rw [if_neg hn, get_bind_apply]
  refine bind_of_ok (vsearch_ends hP hp h.hi h.list (fun c hc => ?_) h.length_lt hbs hlast)
  have := h.mem hc
  exact ⟨this.1, by omega⟩

/-! ## The block made of fresh pages -/

theorem lastAddr_append (pv : Nat) (bs : List VBlk) (b : VBlk) :
    lastAddr pv (bs ++ [b]) = b.addr := by
  induction bs generalizing pv with
  | nil => rfl
  | cons c bs ih => exact ih c.addr

theorem seg_relink {m : Mem} {p q q' e : Nat} {bs : List VBlk} {b : VBlk}
    (h : Seg vNode m p (bs ++ [b]) q) (hb : VList e (bs ++ [b])) (hq : q' < 2 ^ 32) :
    Seg vNode (store32 m (b.addr + 16) q') p (bs ++ [b]) q' := by
  obtain ⟨a, hseg, ha, hnull, hhold, -⟩ := seg_append.mp h
  have ha : a = b.addr := ha
  subst ha
  have hap := hb.apart
  rw [List.pairwise_append] at hap
  rw [seg_append]
  refine ⟨b.addr, hseg.frame fun c hc x h1 h2 => store32_other ?_, rfl, hnull,
    ⟨?_, ?_, fun hf => ?_, fun c hc => ?_⟩, ?_⟩
  · have := hap.2.2 c hc b (by simp)
    have h2 : x < c.addr + 20 := h2
    omega
  · rw [load32_store32_ne (by omega), hhold.1]
  · rw [load32_store32_ne (by omega), hhold.2.1]
  · rw [load32_store32_ne (by omega), hhold.2.2.1 hf]
  · rw [load32_store32_ne (by omega), hhold.2.2.2 c hc]
  · show load32 (store32 m (b.addr + 16) q') (b.addr + 16) = q'
    exact load32_store32 hq

/-- The header that `vmalloc` writes at `e`. -/
def newHeader (m : Mem) (e r c : Nat) : Mem :=
  store32 (store32 (store32 (store32 (store32 m e r) (e + 4) c) (e + 8) 0) (e + 12)
    vmemMagicAllocated) (e + 16) 0

theorem newHeader_same (m : Mem) (e r c : Nat) :
    SameOff (fun x => e ≤ x ∧ x < e + 20) m (newHeader m e r c) := by
  refine SameOff.store32 (SameOff.store32 (SameOff.store32 (SameOff.store32 (SameOff.store32
    (SameOff.refl _ _) ?_) ?_) ?_) ?_) ?_ <;> intro x _ _ <;> omega

theorem newHeader_seg {m : Mem} {e r c : Nat} (he : e ≠ 0) (hr : r < 2 ^ 32) (hc : c < 2 ^ 32) :
    Seg vNode (newHeader m e r c) e [⟨e, r, false, some c⟩] 0 := by
  unfold newHeader
  refine ⟨rfl, he, ⟨?_, ?_, fun _ => ?_, fun c' hc' => ?_⟩, ?_⟩
  · show load32 _ e = r
    simp (disch := omega) only [load32_store32_ne, load32_store32]
  · show load32 _ (e + 8) = 0
    simp (disch := omega) only [load32_store32_ne, load32_store32]
  · show load32 _ (e + 12) = vmemMagicAllocated
    rw [load32_store32_ne (by omega), load32_store32 (by decide)]
  · injection hc' with hc'
    subst hc'
    show load32 _ (e + 4) = c
    simp (disch := omega) only [load32_store32_ne, load32_store32]
  · show load32 _ (e + 16) = 0
    simp (disch := omega) only [load32_store32]

theorem newHeader_stores {m : Mem} {e r c : Nat} (he : e % 4 = 0) (hr : Inert vmemMagicAllocated r)
    (hc : Inert vmemMagicAllocated c) :
    MarkStores vmemMagicAllocated (· = e + 12) m (newHeader m e r c) :=
  .store (.mark (.store (.store (.store .refl (by omega) hr) (by omega) hc) (by omega) inert_zero)
    (by omega) rfl) (by omega) inert_zero

/-- The memory after the block at `pv`, if there is one, is linked to one at `e`. -/
def vlinked (m : Mem) (pv e : Nat) : Mem := if pv ≠ 0 then store32 m (pv + 16) e else m

theorem vlinked_stores {m : Mem} {pv e : Nat} (hpv : pv % 4 = 0)
    (he : e % 4 = 0) (hlt : e < 2 ^ 24) :
    InertStores vmemMagicAllocated m (vlinked m pv e) := by
  unfold vlinked
  split
  · exact .store .refl (by omega) (inert_aligned he hlt)
  · exact .refl

theorem newHeader_eq (hP : P.IsData) {e e' r c : Nat} (hp : Plain P s.mem (vmemWindow e'))
    (hlo : kvmemStart ≤ e) (he : e + 20 ≤ e') (hlim : e' ≤ 0xC00000) :
    (do
      st e r
      st (e + 4) c
      st (e + 8) 0
      st (e + 12) vmemMagicAllocated
      st (e + 16) 0 : K M Unit) s = .ok () (P.put s (newHeader (P.view s) e r c)) := by
  have hW : ∀ {b}, e ≤ b → b + 4 ≤ e + 20 → ∀ x, b ≤ x → x < b + 4 → vmemWindow e' x :=
    fun h1 h2 x _ _ => .inr ⟨by omega, by omega⟩
  have hst : ∀ {d b} v, SameOff (vmemWindow e') (P.view s) d → e ≤ b → b + 4 ≤ e + 20 →
      st b v (P.put s d) = .ok () (P.put s (store32 d b v)) :=
    fun v hd h1 h2 => hp.st hP hd (by omega) (hW h1 h2) v
  have hso : ∀ {d b v}, SameOff (vmemWindow e') (P.view s) d → e ≤ b → b + 4 ≤ e + 20 →
      SameOff (vmemWindow e') (P.view s) (store32 d b v) :=
    fun hd h1 h2 => hd.store32 (hW h1 h2)
  have h0 := SameOff.refl (vmemWindow e') (P.view s)
  have e1 := hst r h0 (b := e) (by omega) (by omega)
  rw [P.put_view] at e1
  have s1 := hso h0 (b := e) (v := r) (by omega) (by omega)
  have s2 := hso s1 (b := e + 4) (v := c) (by omega) (by omega)
  have s3 := hso s2 (b := e + 8) (v := 0) (by omega) (by omega)
  have s4 := hso s3 (b := e + 12) (v := vmemMagicAllocated) (by omega) (by omega)
  rw [bind_of_ok e1, bind_of_ok (hst _ s1 (by omega) (by omega)),
    bind_of_ok (hst _ s2 (by omega) (by omega)), bind_of_ok (hst _ s3 (by omega) (by omega)),
    hst _ s4 (by omega) (by omega)]
  rfl

/-- What `vmemAppend` does after it has written the header at `c`. -/
def linkAppended (last c k e : Nat) : K M Nat := do
  if last ≠ 0 then
    st (last + 16) c
  else
    setVmem fun v => { v with vmemList := c }
  setVmem fun v => { v with vmemCurrent := e }
  setVmem fun v => { v with vmemSize := add32 v.vmemSize (k * pageSize % 2 ^ 32) }
  return c + 20

theorem linkAppended_first (c k e : Nat) (s : State M) : linkAppended 0 c k e s =
    .ok (c + 20) { s with vmem := ⟨e, add32 s.vmem.vmemSize (k * pageSize % 2 ^ 32), c⟩ } := rfl

theorem vmemAppend_header (hP : P.IsData) {l r k c e : Nat} (hp : Plain P s.mem (vmemWindow e))
    (hc : c = s.vmem.vmemCurrent) (he : e = c + k * 4096) (hlo : 0x300000 ≤ c) (hlim : e ≤ 0xC00000)
    (hk : 1 ≤ k) :
    vmemAppend r l k e s =
      linkAppended l c k e (P.put s (newHeader (P.view s) c r (k * 4096 - 20))) := by
  have hcap : sub32 (k * pageSize % 2 ^ 32) vmemHeader = k * 4096 - 20 := by
    simp only [pageSize, vmemHeader, sub32]
    omega
  have hptr : add32 c vmemHeader = c + 20 := by
    simp only [vmemHeader, add32]
    omega
  have hhdr :=
    newHeader_eq hP (s := s) (r := r) (c := k * 4096 - 20) hp hlo (e := c) (by omega) hlim
  obtain ⟨_, s1, h1, hr1⟩ := bind_eq_ok.mp hhdr
  obtain ⟨_, s2, h2, hr2⟩ := bind_eq_ok.mp hr1
  obtain ⟨_, s3, h3, hr3⟩ := bind_eq_ok.mp hr2
  obtain ⟨_, s4, h4, h5⟩ := bind_eq_ok.mp hr3
  unfold vmemAppend linkAppended
  rw [get_bind_apply, ← hc]
  simp only [hcap, hptr]
  rw [bind_of_ok h1, bind_of_ok h2, bind_of_ok h3, bind_of_ok h4, bind_of_ok h5]

/-- **The block of a freshly mapped range** goes to the end of the list. -/
theorem vmemAppend_spec (hP : P.IsData) {bs : List VBlk} {r k e : Nat} (h : VmemInv P s bs)
    (hp : Plain P s.mem (vmemWindow e)) (he : e = s.vmem.vmemCurrent + k * 4096)
    (hlim : e ≤ 0xC00000) (hr : r + 20 ≤ k * 4096) :
    ∃ s', vmemAppend r (lastAddr 0 bs) k e s = .ok (s.vmem.vmemCurrent + 20) s' ∧
      (∃ d, s'.mem = (P.put s d).mem ∧ s'.pmm = s.pmm ∧ s'.kheap = s.kheap ∧
        d = vlinked (newHeader (P.view s) s.vmem.vmemCurrent r (k * 4096 - 20)) (lastAddr 0 bs)
          s.vmem.vmemCurrent ∧
        SameOff (fun x => s.vmem.vmemCurrent ≤ x ∧ x < s.vmem.vmemCurrent + 20 ∨ InVHeader bs x)
          (P.view s) d) ∧
      s'.vmem.vmemCurrent = e ∧
      VmemInv P s' (bs ++ [⟨s.vmem.vmemCurrent, r, false, some (k * 4096 - 20)⟩]) := by
  obtain ⟨c, hc⟩ : ∃ c, c = s.vmem.vmemCurrent := ⟨_, rfl⟩
  have hlo := h.lo
  have hpage := h.page
  rw [← hc] at he hlo hpage ⊢
  simp only [kvmemStart] at hlo
  obtain ⟨m, hm⟩ : ∃ m, m = newHeader (P.view s) c r (k * 4096 - 20) := ⟨_, rfl⟩
  have hsame := newHeader_same (P.view s) c r (k * 4096 - 20)
  have hnew := newHeader_seg (m := P.view s) (e := c) (r := r) (c := k * 4096 - 20) (by omega)
    (by omega) (by omega)
  rw [← hm] at hsame hnew
  have hbs : Seg vNode m s.vmem.vmemList bs 0 :=
    h.list.frame fun b hb x h1 h2 => hsame x fun hx => by
    have := h.mem hb
    have h2 : x < b.addr + 20 := h2
    omega
  have hvl : VList e (bs ++ [⟨c, r, false, some (k * 4096 - 20)⟩]) := by
    have := h.blocks
    rw [← hc] at this
    exact this.append hpage hlo (by omega) (by omega) (by omega)
  have hunfold := vmemAppend_header hP (l := lastAddr 0 bs) (r := r) hp hc he hlo hlim (by omega)
  rw [← hm] at hunfold
  rw [hunfold]
  rcases List.eq_nil_or_concat bs with rfl | ⟨init, l, rfl⟩
  · refine ⟨_, linkAppended_first c k e _,
      ⟨m, rfl, rfl, rfl, hm, hsame.mono fun x hx => .inl hx⟩, rfl, ?_, hvl,
      by simp only [kvmemStart]; omega, hlim, ?_⟩
    · show Seg vNode (P.view (P.put s m)) c [⟨c, r, false, some (k * 4096 - 20)⟩] 0
      rw [P.view_put]
      exact hnew
    · show e % 4096 = 0
      omega
  · rw [List.concat_eq_append] at *
    have hl := h.mem (b := l) (by simp)
    rw [← hc] at hl
    have hlw : ∀ x, l.addr + 16 ≤ x → x < l.addr + 16 + 4 → vmemWindow e x :=
      fun x _ _ => .inr ⟨by simp only [kvmemStart]; omega, by omega⟩
    have hsame' : SameOff (vmemWindow e) (P.view s) m := hsame.mono fun x hx =>
      .inr ⟨by simp only [kvmemStart]; omega, by omega⟩
    have hlink := hp.st hP hsame' (a := l.addr + 16) (by omega) hlw c
    refine ⟨{ P.put s (store32 m (l.addr + 16) c) with
      vmem := ⟨e, add32 s.vmem.vmemSize (k * pageSize % 2 ^ 32), s.vmem.vmemList⟩ }, ?_,
      ⟨_, rfl, rfl, rfl, ?_, SameOff.store32 (hsame.mono fun x hx => .inl hx)
        fun x h1 h2 => .inr ⟨l, by simp, by omega, by omega⟩⟩, rfl, ?_, hvl,
      by simp only [kvmemStart]; omega, hlim, ?_⟩
    · rw [lastAddr_append, linkAppended, if_pos (by omega), bind_of_ok hlink]
      rfl
    · rw [lastAddr_append, vlinked, if_pos (by omega), hm]
    · show Seg vNode (P.view (P.put s (store32 m (l.addr + 16) c))) s.vmem.vmemList _ 0
      rw [P.view_put, seg_append]
      refine ⟨c, seg_relink hbs h.blocks (by omega), hnew.frame fun b hb x h1 h2 =>
        store32_other ?_⟩
      rw [List.mem_singleton.mp hb] at h1
      have h1 : c ≤ x := h1
      omega
    · show e % 4096 = 0
      omega

/-! ## Expanding the region -/

theorem vmemPages_eq {r : Nat} (hr : r + 4115 < 2 ^ 32) : vmemPages r = (r + 20 + 4095) / 4096 := by
  unfold vmemPages
  have h1 : sub32 (add32 (add32 r vmemHeader) pageSize) 1 = r + 20 + 4095 := by
    simp only [add32, sub32, vmemHeader, pageSize]
    omega
  rw [h1]
  rfl

theorem vmallocExpand_ok {img : Image} {s s' : State M} {r prev p : Nat}
    (hr : s.vmem.vmemCurrent + r + 4115 < 2 ^ 32) (h : vmallocExpand img r prev s = .ok p s') :
    ∃ k e s₁, k = vmemPages r ∧ r + 20 ≤ k * 4096 ∧ e = s.vmem.vmemCurrent + k * 4096 ∧
      e ≤ kvmemEnd ∧ vmallocMap img s.vmem.vmemCurrent e s = .ok () s₁ ∧
      vmemAppend r prev k e s₁ = .ok p s' := by
  have hpages := vmemPages_eq (r := r) (by omega)
  obtain ⟨k, hk⟩ : ∃ k, k = vmemPages r := ⟨_, rfl⟩
  have hend : add32 s.vmem.vmemCurrent (k * pageSize % 2 ^ 32) = s.vmem.vmemCurrent + k * 4096 := by
    simp only [add32, pageSize]
    omega
  unfold vmallocExpand at h
  rw [get_bind_apply, ← hk] at h
  simp only [hend] at h
  split at h
  · cases h
  · next hle =>
    obtain ⟨_, s₁, h1, h2⟩ := bind_eq_ok.mp h
    exact ⟨k, _, s₁, hk, by omega, rfl, by omega, h1, h2⟩

/-! ## `vfree` -/

theorem vfreeMerge_test (hP : P.IsData) {x : VBlk} {c next : Nat} {W : Nat → Prop}
    (hp : Plain P s.mem W) (hlist : s.vmem.vmemList = x.addr) (hx : vNode.holds (P.view s) x)
    (hc : x.cap = some c) (hend : x.addr + 20 + c ≤ 0xC00000)
    (hW : ∀ y, x.addr ≤ y → y < x.addr + 20 → W y)
    (hnext : load32 (P.view s) (x.addr + 16) = next)
    (hn : x.free = true → ∀ y, next + 8 ≤ y → y < next + 12 → W y) (hn' : next ≤ 0xC00000) :
    vfreeMerge s = (if x.free && decide (load32 (P.view s) (next + 8) ≠ 0) &&
        decide (x.addr + 20 + c = next) then do
          let nextCapacity ← ld (next + 4)
          st (x.addr + 4) (add32 c (add32 vmemHeader nextCapacity))
          let nextNext ← ld (next + 16)
          st (x.addr + 16) nextNext
        else return : K M Unit) s := by
  have hld : ∀ i, i ≤ 16 → ld (x.addr + i) s = .ok (load32 (P.view s) (x.addr + i)) s :=
    fun i hi => hp.ld_view hP (by omega) fun y _ _ => hW y (by omega) (by omega)
  have hendc : add32 (add32 x.addr vmemHeader) c = x.addr + 20 + c := by
    simp only [vmemHeader, add32]
    omega
  have hfree : andThen (do return (← ld (x.addr + 8)) ≠ 0) (do return (← ld (next + 8)) ≠ 0) s =
      .ok (x.free && decide (load32 (P.view s) (next + 8) ≠ 0)) s := by
    refine andThen_pure ?_ fun hxf => ?_
    · rw [bind_of_ok (hld 8 (by omega)), hx.2.1, pure_apply]
      cases x.free <;> rfl
    · rw [bind_of_ok (hp.ld_view hP (by omega) (hn hxf)), pure_apply]
  unfold vfreeMerge
  rw [get_bind_apply, hlist, bind_of_ok (hld 4 (by omega)), hx.2.2.2 c hc]
  simp only [hendc]
  rw [bind_of_ok (hld 16 (by omega)), hnext, bind_of_ok hfree]

/-- The memory after the block at `a` of capacity `c` has taken over the block of capacity
`c'` behind it. -/
def vjoined (m : Mem) (a c c' : Nat) : Mem :=
  store32 (store32 m (a + 4) (c + (20 + c'))) (a + 16) (load32 m (a + 20 + c + 16))

section Join

variable {a z c z' c' : Nat} {ys : List VBlk}
  (h : VmemInv P s (⟨a, z, true, some c⟩ :: ⟨a + 20 + c, z', true, some c'⟩ :: ys))
include h

omit [Bus M] in
theorem VmemInv.pair_bounds : kvmemStart ≤ a ∧ a + 20 + c + 20 + c' ≤ s.vmem.vmemCurrent ∧
    s.vmem.vmemCurrent ≤ 0xC00000 := by
  have hin := h.mem (b := ⟨a, z, true, some c⟩) (by simp)
  have hw := h.blocks.whole ⟨a + 20 + c, z', true, some c'⟩ (by simp) c' rfl
  exact ⟨hin.1, hw.2.2, h.hi⟩

omit [Bus M] in
theorem VmemInv.pair_rest :
    Seg vNode (P.view s) (load32 (P.view s) (a + 20 + c + 16)) ys 0 := by
  obtain ⟨hlist, -, -, hnext, -, -, hrest⟩ := h.list
  have hlist : s.vmem.vmemList = a := hlist
  rw [hlist] at hnext hrest
  rw [show load32 (P.view s) (a + vNode.next) = a + 20 + c from hnext] at hrest
  exact hrest

omit [Bus M] in
theorem vjoined_seg : Seg vNode (vjoined (P.view s) a c c') a
    (⟨a, z, true, some (c + (20 + c'))⟩ :: ys) 0 := by
  obtain ⟨hlo, hend, hhi⟩ := h.pair_bounds
  have hx := h.list.2.2.1
  simp only [kvmemStart] at hlo
  unfold vjoined
  refine ⟨rfl, by omega, ⟨?_, ?_, ?_, ?_⟩, ?_⟩
  · show load32 _ a = z
    simp (disch := omega) only [load32_store32_ne]
    exact hx.1
  · show load32 _ (a + 8) = 1
    simp (disch := omega) only [load32_store32_ne]
    exact hx.2.1
  · intro hf
    cases hf
  · intro d hd
    injection hd with hd
    subst hd
    show load32 _ (a + 4) = _
    simp (disch := omega) only [load32_store32_ne, load32_store32]
  · show Seg vNode _ (load32 _ (a + 16)) ys 0
    rw [load32_store32 (load32_lt _ _)]
    refine h.pair_rest.frame fun b hb x h1 h2 => ?_
    have hap := h.blocks.apart
    rw [List.pairwise_cons] at hap
    have := hap.1 b (by simp [hb])
    have h1 : b.addr ≤ x := h1
    simp only at this
    rw [store32_other (by omega), store32_other (by omega)]

omit [Bus M] in
theorem vjoined_stores (hal : ∀ b ∈ (⟨a, z, true, some c⟩ :: ⟨a + 20 + c, z', true, some c'⟩ :: ys),
    b.addr % 4 = 0) : InertStores vmemMagicAllocated (P.view s) (vjoined (P.view s) a c c') := by
  obtain ⟨-, hend, hhi⟩ := h.pair_bounds
  have ha4 : a % 4 = 0 := hal _ List.mem_cons_self
  have hw := h.blocks.whole ⟨a, z, true, some c⟩ (by simp) c rfl
  have hw' := h.blocks.whole ⟨a + 20 + c, z', true, some c'⟩ (by simp) c' rfl
  simp only at hw hw'
  have hlink : Inert vmemMagicAllocated (load32 (P.view s) (a + 20 + c + 16)) :=
    vseg_inert h.pair_rest fun b hb => by
      have := h.mem (b := b) (by simp [hb])
      exact ⟨hal b (by simp [hb]), by omega⟩
  exact .store (.store .refl (by omega) (inert_aligned (by omega) (by omega))) (by omega) hlink

/-- The head of the list takes over a free block that starts where its capacity ends. -/
theorem vfreeMerge_join (hP : P.IsData) {W : Nat → Prop} (hp : Plain P s.mem W)
    (hW : ∀ x, InVHeader (⟨a, z, true, some c⟩ :: ⟨a + 20 + c, z', true, some c'⟩ :: ys) x → W x) :
    vfreeMerge s = .ok () (P.put s (vjoined (P.view s) a c c')) := by
  obtain ⟨hlo, hend, hhi⟩ := h.pair_bounds
  obtain ⟨hlist, -, hx, hnext, -, hy, -⟩ := h.list
  have hlist : s.vmem.vmemList = a := hlist
  rw [hlist] at hnext
  have hnext : load32 (P.view s) (a + 16) = a + 20 + c := hnext
  have hcap : load32 (P.view s) (a + 20 + c + 4) = c' := hy.2.2.2 c' rfl
  have hfree : load32 (P.view s) (a + 20 + c + 8) = 1 := hy.2.1
  have hsum : add32 c (add32 vmemHeader c') = c + (20 + c') := by
    simp only [vmemHeader, add32]
    omega
  have hW₁ : ∀ {b}, a ≤ b → b + 4 ≤ a + 20 → ∀ x, b ≤ x → x < b + 4 → W x :=
    fun h1 h2 x _ _ => hW x ⟨_, List.mem_cons_self, by simp only; omega, by simp only; omega⟩
  have hW₂ : ∀ {b}, a + 20 + c ≤ b → b + 4 ≤ a + 20 + c + 20 → ∀ x, b ≤ x → x < b + 4 → W x :=
    fun h1 h2 x _ _ => hW x ⟨_, List.mem_cons_of_mem _ List.mem_cons_self, by simp only; omega,
      by simp only; omega⟩
  have htest := vfreeMerge_test hP hp hlist hx rfl (by simp only; omega)
    (fun y h1 h2 => hW y ⟨_, List.mem_cons_self, h1, h2⟩) hnext
    (fun _ => hW₂ (by omega) (by omega)) (by omega)
  have e1 := hp.st hP (SameOff.refl _ (P.view s)) (a := a + 4) (by omega)
    (hW₁ (by omega) (by omega)) (c + (20 + c'))
  rw [P.put_view] at e1
  have s1 : SameOff W (P.view s) (store32 (P.view s) (a + 4) (c + (20 + c'))) :=
    (SameOff.refl _ _).store32 (hW₁ (by omega) (by omega))
  rw [htest, hfree]
  simp only [decide_true, Bool.and_self, ↓reduceIte, ne_eq, one_ne_zero, not_false_eq_true]
  rw [bind_of_ok (hp.ld_view hP (by omega) (hW₂ (by omega) (by omega))), hcap, hsum,
    bind_of_ok e1, bind_of_ok (hp.ld hP s1 (by omega) (hW₂ (by omega) (by omega))),
    load32_store32_ne (by omega), hp.st hP s1 (by omega) (hW₁ (by omega) (by omega))]
  rfl

end Join

/-- The bytes where the merge of `vfree` writes: `capacity` and `next` of the head. -/
def vmergeWrites (head x : Nat) : Prop :=
  head + 4 ≤ x ∧ x < head + 8 ∨ head + 16 ≤ x ∧ x < head + 20

/-- The memory after the merge of `vfree` on the list `cs`. -/
def vmergedMem (m : Mem) : List VBlk → Mem
  | ⟨a, _, true, some c⟩ :: ⟨a', _, true, some c'⟩ :: _ =>
    if a + 20 + c = a' then vjoined m a c c' else m
  | _ => m

/-- Nothing is written unless the two blocks at the head are free and touch. -/
theorem vmergedMem_apart {m : Mem} {a z c a' z' : Nat} {f f' : Bool}
    {cap' : Option Nat} {bs : List VBlk} (h : ¬ (f = true ∧ f' = true ∧ a + 20 + c = a')) :
    vmergedMem m (⟨a, z, f, some c⟩ :: ⟨a', z', f', cap'⟩ :: bs) = m := by
  match f, f', cap' with
  | true, true, some _ => exact if_neg fun htouch => h ⟨rfl, rfl, htouch⟩
  | true, true, none => rfl
  | true, false, _ => rfl
  | false, _, _ => rfl

/-- **The merge of `vfree`**: the head takes over a free successor that starts where
its capacity ends. It touches the headers of the list, and the words at a null pointer if
the head is the only block. -/
theorem vfreeMerge_within (hP : P.IsData) {cs : List VBlk} {W : Nat → Prop} (h : VmemInv P s cs)
    (hp : Plain P s.mem W) (hne : cs ≠ []) (hW : ∀ x, InVHeader cs x → W x)
    (hnull : cs.length = 1 → ∀ x, 8 ≤ x → x < 12 → W x) :
    ∃ d, d = vmergedMem (P.view s) cs ∧ vfreeMerge s = .ok () (P.put s d) ∧
      VmemInv P (P.put s d) (vmerge cs) ∧ SameOff (vmergeWrites s.vmem.vmemList) (P.view s) d ∧
      ((∀ b ∈ cs, b.addr % 4 = 0) → InertStores vmemMagicAllocated (P.view s) d) := by
  cases cs with
  | nil => exact absurd rfl hne
  | cons x ys =>
  obtain ⟨a, z, f, cap⟩ := x
  obtain ⟨c, rfl⟩ : ∃ c, cap = some c := Option.isSome_iff_exists.mp (h.blocks.head _ rfl)
  have hhi := h.hi
  have hin := h.mem (b := ⟨a, z, f, some c⟩) (by simp)
  have hw := h.blocks.whole ⟨a, z, f, some c⟩ (by simp) c rfl
  obtain ⟨hlist, -, hx, hrest⟩ := h.list
  have hlist : s.vmem.vmemList = a := hlist
  rw [hlist] at hrest
  simp only at hin hw
  have hhead : ∀ y, a ≤ y → y < a + 20 → W y := fun y h1 h2 => hW y ⟨_, List.mem_cons_self, h1, h2⟩
  have hskip :
      vfreeMerge s = .ok () s → vmergedMem (P.view s) (⟨a, z, f, some c⟩ :: ys) = P.view s →
      vmerge (⟨a, z, f, some c⟩ :: ys) = ⟨a, z, f, some c⟩ :: ys →
      ∃ d, d = vmergedMem (P.view s) (⟨a, z, f, some c⟩ :: ys) ∧ vfreeMerge s = .ok () (P.put s d) ∧
        VmemInv P (P.put s d) (vmerge (⟨a, z, f, some c⟩ :: ys)) ∧
        SameOff (vmergeWrites s.vmem.vmemList) (P.view s) d ∧
        ((∀ b ∈ (⟨a, z, f, some c⟩ :: ys), b.addr % 4 = 0) →
          InertStores vmemMagicAllocated (P.view s) d) := by
    intro h1 hmem h2
    refine ⟨P.view s, hmem.symm, by rw [P.put_view]; exact h1, ?_, SameOff.refl _ _, fun _ => .refl⟩
    rw [P.put_view, h2]
    exact h
  cases ys with
  | nil =>
    -- the word at `8` decides nothing: no capacity ends at null
    have hnext : load32 (P.view s) (a + 16) = 0 := hrest
    have htest := vfreeMerge_test hP hp hlist hx rfl (by simp only; omega) hhead hnext
      (fun _ => hnull rfl) (by omega)
    refine hskip ?_ ?_ ?_
    · rw [htest, show decide (a + 20 + c = 0) = false from decide_eq_false (by omega)]
      simp only [Bool.and_false, Bool.false_eq_true, ↓reduceIte, pure_apply]
    · cases f <;> rfl
    · cases f <;> rfl
  | cons y ys =>
    obtain ⟨a', z', f', cap'⟩ := y
    by_cases hmerge : f = true ∧ f' = true ∧ a + 20 + c = a'
    swap
    · obtain ⟨hnext, -, hy, -⟩ := hrest
      have hin' := h.mem (b := ⟨a', z', f', cap'⟩) (by simp)
      simp only at hin'
      have hnext : load32 (P.view s) (a + 16) = a' := hnext
      have hsecond : ∀ y, a' + 8 ≤ y → y < a' + 12 → W y := fun y h1 h2 =>
        hW y ⟨_, List.mem_cons_of_mem _ List.mem_cons_self, by simp only; omega,
          by simp only; omega⟩
      have htest := vfreeMerge_test hP hp hlist hx rfl (by simp only; omega) hhead hnext
        (fun _ => hsecond) (by omega)
      rw [show decide (load32 (P.view s) (a' + 8) ≠ 0) = f' by
        rw [hy.2.1]; cases f' <;> rfl] at htest
      refine hskip ?_ (vmergedMem_apart hmerge) (vmerge_apart hmerge)
      rw [htest, if_neg (by simpa using hmerge), pure_apply]
    obtain ⟨rfl, rfl, rfl⟩ := hmerge
    obtain ⟨c', rfl⟩ := h.blocks.cap_of_touch
    refine ⟨_, (if_pos rfl).symm, vfreeMerge_join h hP hp hW, ?_, ?_, vjoined_stores h⟩
    · rw [vmerge_touching]
      refine ⟨?_, h.blocks.merge, h.lo, h.hi, h.page⟩
      rw [P.view_put]
      show Seg vNode _ s.vmem.vmemList _ 0
      rw [hlist]
      exact vjoined_seg h
    · rw [hlist]
      refine SameOff.store32 (SameOff.store32 (SameOff.refl _ _) ?_) ?_ <;> intro x h1 h2
      · exact .inl ⟨h1, by omega⟩
      · exact .inr ⟨h1, by omega⟩

omit [Bus M] in
theorem VmemInv.header_window {cs : List VBlk} (h : VmemInv P s cs) {x : Nat}
    (hx : InVHeader cs x) : vmemWindow s.vmem.vmemCurrent x := by
  obtain ⟨b, hb, h1, h2⟩ := hx
  have := h.mem hb
  exact .inr ⟨by simp only [kvmemStart]; omega, by omega⟩

omit [Bus M] in
/-- The head's header holds what the merge writes. -/
theorem VmemInv.header_merge {cs : List VBlk} (h : VmemInv P s cs) (hne : cs ≠ []) {x : Nat}
    (hx : vmergeWrites s.vmem.vmemList x) : InVHeader cs x := by
  cases cs with
  | nil => exact absurd rfl hne
  | cons b cs =>
    have hlist : s.vmem.vmemList = b.addr := h.list.1
    rw [hlist] at hx
    unfold vmergeWrites at hx
    exact ⟨b, List.mem_cons_self, by omega, by omega⟩

/-- **The merge of `vfree`** in the region. -/
theorem vfreeMerge_spec (hP : P.IsData) {cs : List VBlk} (h : VmemInv P s cs)
    (hp : Plain P s.mem (vmemWindow s.vmem.vmemCurrent)) (hne : cs ≠ []) :
    ∃ d, vfreeMerge s = .ok () (P.put s d) ∧ VmemInv P (P.put s d) (vmerge cs) ∧
      SameOff (InVHeader cs) (P.view s) d ∧
      ((∀ b ∈ cs, b.addr % 4 = 0) → InertStores vmemMagicAllocated (P.view s) d) := by
  obtain ⟨d, -, hr, hinv, hsame, hstores⟩ := vfreeMerge_within hP h hp hne
    (fun _ => h.header_window)
    fun _ x _ _ => .inl (by omega)
  exact ⟨d, hr, hinv, hsame.mono fun _ => h.header_merge hne, hstores⟩

theorem vfree_eq (hP : P.IsData) {a : Nat} {W : Nat → Prop} (hp : Plain P s.mem W)
    (hmagic : load32 (P.view s) (a + 12) = vmemMagicAllocated) (hlim : a + 20 ≤ 0xC00000)
    (hW : ∀ x, a ≤ x → x < a + 20 → W x) :
    vfree (a + 20) s = vfreeMerge (P.put s (vmarked (P.view s) a)) := by
  have hblk : sub32 (a + 20) vmemHeader = a := by
    simp only [sub32, vmemHeader]
    omega
  have hW : ∀ {b}, a ≤ b → b + 4 ≤ a + 20 → ∀ x, b ≤ x → x < b + 4 → W x :=
    fun h1 h2 x _ _ => hW x (by omega) (by omega)
  have e1 := hp.st hP (SameOff.refl _ (P.view s)) (a := a + 8) (by omega)
    (hW (by omega) (by omega)) 1
  rw [P.put_view] at e1
  have s1 : SameOff W (P.view s) (store32 (P.view s) (a + 8) 1) :=
    (SameOff.refl _ _).store32 (hW (by omega) (by omega))
  unfold vfree
  simp only [show a + 20 ≠ 0 by omega, ↓reduceIte, hblk]
  rw [bind_of_ok (hp.ld_view hP (by omega) (hW (by omega) (by omega))), hmagic]
  simp only [show vmemMagicAllocated ≠ vmemMagicFreed by decide, ↓reduceIte, ne_eq,
    not_true_eq_false]
  rw [bind_of_ok e1, bind_of_ok (hp.st hP s1 (by omega) (hW (by omega) (by omega)) _)]
  rfl

theorem inVHeader_release {pre post : List VBlk} {b : VBlk} {x : Nat} :
    InVHeader (pre ++ b.release :: post) x ↔ InVHeader (pre ++ b :: post) x := by
  unfold InVHeader
  constructor
  · rintro ⟨c, hc, hx⟩
    rcases List.mem_append.mp hc with hc | hc
    · exact ⟨c, by simp [hc], hx⟩
    · rcases List.mem_cons.mp hc with rfl | hc
      · exact ⟨b, by simp, hx⟩
      · exact ⟨c, by simp [hc], hx⟩
  · rintro ⟨c, hc, hx⟩
    rcases List.mem_append.mp hc with hc | hc
    · exact ⟨c, by simp [hc], hx⟩
    · rcases List.mem_cons.mp hc with rfl | hc
      · exact ⟨c.release, by simp, hx⟩
      · exact ⟨c, by simp [hc], hx⟩

/-- **`vfree` of an allocated block**: it is marked free, and the head of the list may
take over its successor. Its magic is gone, and no other magic came. -/
theorem vfree_within (hP : P.IsData) {pre post : List VBlk} {b : VBlk} {W : Nat → Prop}
    (h : VmemInv P s (pre ++ b :: post)) (hp : Plain P s.mem W) (hf : b.free = false)
    (hW : ∀ x, InVHeader (pre ++ b :: post) x → W x)
    (hnull : (pre ++ b :: post).length = 1 → ∀ x, 8 ≤ x → x < 12 → W x) :
    ∃ d, d = vmergedMem (vmarked (P.view s) b.addr) (pre ++ b.release :: post) ∧
      vfree (b.addr + 20) s = .ok () (P.put s d) ∧
      VmemInv P (P.put s d) (vmerge (pre ++ b.release :: post)) ∧
      SameOff (vmergeWrites s.vmem.vmemList) (vmarked (P.view s) b.addr) d ∧
      ((∀ c ∈ pre ++ b :: post, c.addr % 4 = 0) →
        InertStores vmemMagicAllocated (P.view s) d ∧
        load32 d (b.addr + 12) ≠ vmemMagicAllocated) := by
  have hbin := h.mem (b := b) (by simp)
  have hhead : ∀ x, b.addr ≤ x → x < b.addr + 20 → W x := fun x h1 h2 => hW x ⟨b, by simp, h1, h2⟩
  have hwin : SameOff W (P.view s) (vmarked (P.view s) b.addr) :=
    (vmarked_same (P.view s) b.addr).mono fun x hx => hhead x hx.1 hx.2
  obtain ⟨d, hmem, hr, hinv', hsame', hstores⟩ := vfreeMerge_within hP h.mark
    (hp.put hwin) (by simp)
    (fun x hx => hW x (inVHeader_release.mp hx)) (by simpa using hnull)
  rw [P.put_put] at hr hinv'
  rw [P.view_put] at hmem hsame' hstores
  refine ⟨d, hmem, ?_, hinv', hsame', fun hal => ?_⟩
  · rw [vfree_eq hP hp ((h.list.holds b (by simp)).2.2.1 hf) (by omega) hhead]
    exact hr
  · have hstores := hstores fun c hc => by
      rcases List.mem_append.mp hc with hc | hc
      · exact hal c (by simp [hc])
      · rcases List.mem_cons.mp hc with rfl | hc
        · exact hal b (by simp)
        · exact hal c (by simp [hc])
    refine ⟨(vmarked_stores _ (hal b (by simp))).trans hstores, fun hnew => ?_⟩
    rcases hstores.quiet spread_allocated _ hnew with hold | hold
    · rw [vmarked, load32_store32 (by decide)] at hold
      exact absurd hold (by decide)
    · exact hold

/-- **`vfree` of an allocated block** in the region. -/
theorem vfree_spec (hP : P.IsData) {pre post : List VBlk} {b : VBlk}
    (h : VmemInv P s (pre ++ b :: post)) (hp : Plain P s.mem (vmemWindow s.vmem.vmemCurrent))
    (hf : b.free = false) :
    ∃ d, vfree (b.addr + 20) s = .ok () (P.put s d) ∧
      VmemInv P (P.put s d) (vmerge (pre ++ b.release :: post)) ∧
      SameOff (InVHeader (pre ++ b :: post)) (P.view s) d ∧
      ((∀ c ∈ pre ++ b :: post, c.addr % 4 = 0) →
        InertStores vmemMagicAllocated (P.view s) d ∧
        load32 d (b.addr + 12) ≠ vmemMagicAllocated) := by
  obtain ⟨d, -, hr, hinv, hsame, hstores⟩ := vfree_within hP h hp hf (fun _ => h.header_window)
    fun _ x _ _ => .inl (by omega)
  refine ⟨d, hr, hinv, .trans ?_ (hsame.mono fun _ => h.header_merge (by simp)), hstores⟩
  exact (vmarked_same (P.view s) b.addr).mono fun x hx => ⟨b, by simp, hx.1, hx.2⟩

end Kfs
