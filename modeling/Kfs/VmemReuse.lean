import Kfs.VmemTiles

/-!
# Live and freed blocks of `vmalloc`

What clients can rely on. `vsize` demands that a header is 8-byte aligned, which
the allocator does not provide: a block split off behind a 20-byte header is 4
bytes past a multiple of 8, so whether `vsize` knows a live block is decided when
`vmalloc` picks it. And `vfree` merges by `capacity` while `vmalloc` searches by
`size`, so a block that the head of the list takes over is no longer found.
-/

namespace Kfs

open Kfs.Lib

variable {img : Image}

/-! ## `vsize` -/

section Vsize

variable {s : State Flat} {bs : List VBlk} {b : VBlk}

theorem vwalk_finds {blk : Nat} : ∀ {as : List Nat} {p k : Nat},
    Follows s.mem.data 16 p as → (∀ a ∈ as, a + 16 < 2 ^ 32) → blk ∈ as → as.length < k →
    iterate .outOfFuel (fun cur => do
      if cur = 0 then return .inr false
      if cur = blk then return .inr true
      return .inl (← ld (cur + 16))) k p s = (.ok true s : EStateM.Result Trap (State Flat) Bool)
  | [], _, _, _, _, hblk, _ => by cases hblk
  | a :: as, _, k + 1, .cons hp hrest, hlt, hblk, hk => by
    by_cases heq : a = blk
    · refine iterate_done ?_
      rw [if_neg hp, if_pos heq]
      rfl
    · rw [iterate_next (y := load32 s.mem.data (a + 16))]
      rotate_left
      · rw [if_neg hp, if_neg heq, bind_of_ok (ld_flat (hlt a List.mem_cons_self) s)]
        rfl
      · have hblk : blk ∈ as := by
          rcases List.mem_cons.mp hblk with h | h
          · exact absurd h.symm heq
          · exact h
        exact vwalk_finds hrest (fun c hc => hlt c (List.mem_cons_of_mem _ hc)) hblk
          (by simpa using hk)

theorem isValidAllocatedBlock_eq (h : VmemInv flatData s bs) (hb : b ∈ bs) :
    isValidAllocatedBlock b.addr s = .ok (decide (b.addr % 8 = 0)) s := by
  have hbnd := h.mem hb
  have hlen := h.length_lt
  have hlo : ¬ b.addr < kvmemStart := by
    simp only [kvmemStart]
    omega
  have hhi : ¬ b.addr ≥ s.vmem.vmemCurrent := by omega
  unfold isValidAllocatedBlock
  rw [get_bind_apply]
  simp only [hlo, hhi, decide_false, Bool.or_self, Bool.false_eq_true, ↓reduceIte]
  rw [and_seven]
  by_cases hmod : b.addr % 8 = 0
  · rw [if_neg (by omega), decide_eq_true hmod]
    refine vwalk_finds h.follows (fun a ha => ?_) (List.mem_map.mpr ⟨b, hb, rfl⟩)
      (by simpa using hlen)
    obtain ⟨c, hc, rfl⟩ := List.mem_map.mp ha
    have := h.mem hc
    omega
  · rw [if_pos hmod, decide_eq_false hmod]
    rfl

/-- **`vsize`** of a used block gives its size if the header is 8-byte aligned, and
refuses it otherwise. -/
theorem vsize_used (h : VmemInv flatData s bs) (hb : b ∈ bs) (hf : b.free = false)
    (hpos : 0 < b.size) :
    vsize (b.addr + 20) s = .ok (if b.addr % 8 = 0 then b.size else 0) s := by
  have hbnd := h.mem hb
  have hhold := h.list.holds b hb
  have hmagic : load32 s.mem.data (b.addr + 12) = vmemMagicAllocated := hhold.2.2.1 hf
  have hblk : sub32 (b.addr + 20) vmemHeader = b.addr := by
    simp only [sub32, vmemHeader]
    omega
  have hlo : ¬ b.addr + 20 < kvmemStart := by
    simp only [kvmemStart]
    omega
  have hhi : ¬ b.addr + 20 ≥ s.vmem.vmemCurrent := by omega
  unfold vsize
  rw [if_neg (by omega), get_bind_apply]
  simp only [hlo, hhi, decide_false, Bool.or_self, Bool.false_eq_true, ↓reduceIte, hblk]
  rw [bind_of_ok (ld_flat (by omega) s), hmagic, if_neg (by decide),
    bind_of_ok (isValidAllocatedBlock_eq h hb)]
  by_cases hmod : b.addr % 8 = 0
  · simp only [hmod, decide_true, Bool.not_true, Bool.false_eq_true, ↓reduceIte]
    rw [ld_flat (by omega) s, show load32 s.mem.data b.addr = b.size from hhold.1]
  · simp only [hmod, decide_false, Bool.not_false, ↓reduceIte]
    rfl

end Vsize

/-- **A used block stays**, with its size, through every step that does not free it. -/
theorem VmemStep.keeps {x y : VmemSys Flat} {op : VmemOp} {bs : List VBlk} {b : VBlk}
    (h : VmemOk img x bs) (hb : b ∈ bs) (hf : b.free = false) (hs : VmemStep img x op y)
    (hop : op ≠ .vfree (b.addr + 20)) : ∃ bs', VmemOk img y bs' ∧ b ∈ bs' := by
  obtain ⟨s', live'⟩ := y
  cases op with
  | vmalloc n =>
    obtain ⟨h1, h2, p, hr, rfl⟩ := hs
    obtain ⟨pre, c, post, rfl, -, hc, -, -, hok⟩ | ⟨-, -, k, -, hok⟩ :=
      h.vmalloc_cases (by omega) (h.no_wrap h2) hr
    · refine ⟨_, hok, mem_replaced _ hb ?_⟩
      rintro rfl
      rw [hc.1] at hf
      cases hf
    · exact ⟨_, hok, List.mem_append_left _ hb⟩
  | vfree p =>
    obtain ⟨hp, hr, rfl⟩ := hs
    obtain ⟨pre, c, post, rfl, rfl, -, hok⟩ := h.vfree hp hr
    refine ⟨_, hok, (mem_vmerge_used hf).mpr (mem_replaced_one _ hb ?_)⟩
    rintro rfl
    exact hop rfl
  | vbrk a =>
    obtain ⟨-, ⟨r, hr⟩, rfl⟩ := hs
    have hg := vbrk_frames h.frames hr
    exact ⟨bs, ⟨hg.frames, h.list.grown hg, h.live⟩, hb⟩
  | write p a v =>
    obtain ⟨hp, h1, h2, hst, rfl⟩ := hs
    have hst : s' = x.st.setData (storeByte x.st.mem.data a v) := hst
    subst hst
    exact ⟨bs, h.write hp h1 h2, hb⟩

/-- The block that `vmalloc(n)` takes from the list, if it takes one, is 8-byte aligned. -/
def TakesAligned (s : State Flat) (n : Nat) : Prop :=
  ∀ as a, Follows s.mem.data 16 s.vmem.vmemList as →
    vmallocFinds s.mem.data (round8 n) as = some a → a % 8 = 0

/-- In this state `vsize(p)` gives the recorded size of the block, which is `z`. -/
def KnowsSize (p z : Nat) (x : VmemSys Flat) : Prop :=
  x.sizeOf p = z ∧ vsize p x.st = .ok z x.st

/-- What `vmalloc(n)` hands out: a used block of at least `n` bytes, aligned exactly when
what it took is. -/
theorem VmemOk.vmalloc_block {x : VmemSys Flat} {bs : List VBlk} (h : VmemOk img x bs) {n p : Nat}
    {s' : State Flat} (hn : 1 ≤ n) (hn' : n ≤ 0x300000) (hr : vmalloc img n x.st = .ok p s') :
    ∃ bs' b, VmemOk img ⟨s', insert p x.live⟩ bs' ∧ b ∈ bs' ∧ b.free = false ∧ p = b.addr + 20 ∧
      n ≤ b.size ∧ (b.addr % 8 = 0 ↔ TakesAligned x.st n) := by
  have hround := (round8_bounds (n := n) (by omega)).1
  have hfinds := vmallocFinds_eq (r := round8 n) h.list.list.holds
  rw [show flatData.view x.st = x.st.mem.data from rfl] at hfinds
  obtain ⟨pre, b, post, rfl, hpre, hb, rfl, -, hok⟩ | ⟨hfull, rfl, k, -, hok⟩ :=
    h.vmalloc_cases (by omega) (h.no_wrap hn') hr
  · have hsome : vmallocFinds x.st.mem.data (round8 n) ((pre ++ b :: post).map VBlk.addr) =
        some b.addr := by
      rw [hfinds, find_first hpre hb]
      rfl
    obtain ⟨c, hc, hcf, hca, hcz⟩ := VBlk.serve_head hb
    refine ⟨_, c, hok, by simp [hc], hcf, by rw [hca], by omega, ?_⟩
    rw [hca]
    constructor
    · intro hmod as a hf ha
      obtain rfl := hf.unique h.list.follows
      rw [hsome] at ha
      cases ha
      exact hmod
    · intro htakes
      exact htakes _ _ h.list.follows hsome
  · refine ⟨_, _, hok, List.mem_append_right _ List.mem_cons_self, rfl, rfl, hround, ?_⟩
    have hpage := h.list.page
    refine iff_of_true (show x.st.vmem.vmemCurrent % 8 = 0 by omega) fun as a hf ha => ?_
    obtain rfl := hf.unique h.list.follows
    rw [hfinds, Option.map_eq_some_iff] at ha
    obtain ⟨c, hc, -⟩ := ha
    have hfits := List.find?_some hc
    exact absurd (of_decide_eq_true hfits) (hfull c (List.mem_of_find?_eq_some hc))

/-- **When `vsize` knows a live block.** For every reachable state, a pointer that
`vmalloc(n)` returns there and every run that does not free it, `vsize` gives the
recorded size, at least `n`, in every state of the run if and only if `vmalloc`
took no unaligned block. -/
theorem vsize_knows_live {x y : VmemSys Flat} (h : Reach (VmemStart img) (VmemStep img) x)
    {n p : Nat} (hn : 1 ≤ n) (hn' : n ≤ 0x300000) (hr : vmalloc img n x.st = .ok p y.st)
    (hlive : y.live = insert p x.live) {tr : List (VmemOp × VmemSys Flat)}
    (ht : Trace (VmemStep img) y tr) (hno : ∀ e ∈ tr, e.1 ≠ .vfree p) :
    (∃ z, n ≤ z ∧ KnowsSize p z y ∧ ∀ e ∈ tr, KnowsSize p z e.2) ↔ TakesAligned x.st n := by
  obtain ⟨bs, hok⟩ := vmemReach_ok h
  obtain ⟨bs', b, hok', hb, hf, rfl, hsize, halign⟩ := hok.vmalloc_block hn hn' hr
  obtain ⟨s', live'⟩ := y
  have hlive : live' = _ := hlive
  subst hlive
  rw [← halign]
  constructor
  · rintro ⟨z, hz, ⟨-, hknow⟩, -⟩
    by_contra hmod
    rw [vsize_used hok'.list hb hf (by omega), if_neg hmod] at hknow
    injection hknow with hknow
    omega
  · intro hmod
    have hknows : ∀ t : VmemSys Flat, (∃ cs, VmemOk img t cs ∧ b ∈ cs) →
        KnowsSize (b.addr + 20) b.size t := by
      rintro t ⟨cs, hcs, hbc⟩
      refine ⟨(hcs.list.list.holds b hbc).1, ?_⟩
      rw [vsize_used hcs.list hbc hf (by omega), if_pos hmod]
    refine ⟨b.size, hsize, hknows _ ⟨bs', hok', hb⟩, ?_⟩
    have hrun := Trace.inv_all (c := fun _ op => op ≠ .vfree (b.addr + 20))
      (I := fun t : VmemSys Flat => ∃ cs, VmemOk img t cs ∧ b ∈ cs)
      (fun t op t' hI hc hs => by
        obtain ⟨cs, hcs, hbc⟩ := hI
        exact VmemStep.keeps hcs hbc hf hs hc)
      ht (Meets.of_forall fun e he _ => hno e he) ⟨bs', hok', hb⟩
    exact fun e he => hknows _ (hrun e he)

theorem VmemOk.serve {x : VmemSys Flat} {pre post : List VBlk} {b : VBlk} {n : Nat}
    (h : VmemOk img x (pre ++ b :: post)) (hn : n ≠ 0) (hpre : ∀ c ∈ pre, ¬ c.Fits (round8 n))
    (hb : b.Fits (round8 n)) :
    ∃ s', vmalloc img n x.st = .ok (b.addr + 20) s' ∧ s'.vmem = x.st.vmem ∧ s'.pmm = x.st.pmm ∧
      VmemOk img ⟨s', insert (b.addr + 20) x.live⟩ (pre ++ b.serve (round8 n) ++ post) := by
  obtain ⟨d, hv, hinv, -⟩ := vmalloc_hit flatData_isData img h.list (flatData_plain _ _) hn hpre hb
  exact ⟨_, hv, rfl, rfl, h.frames.congr rfl rfl, hinv, h.live.serve hb.1⟩

/-- Of a second request, while a third block is handed out. -/
theorem vsize_knows_live_first :
    ∃ x y z : VmemSys Flat, Reach (VmemStart Image.readme) (VmemStep Image.readme) x ∧
    x.live = {0x300014} ∧ VmemStep Image.readme x (.vmalloc 1000) y ∧
    VmemStep Image.readme y (.vmalloc 100) z ∧
      z.live = {0x302014, 0x301014, 0x300014} ∧ ∃ n, 1000 ≤ n ∧ KnowsSize 0x301014 n y ∧
      KnowsSize 0x301014 n z := by
  obtain ⟨s, hr, hboot⟩ := memoryInit_spec Image.readme Flat.blank
  obtain ⟨s₁, s₂, hv₁, hv₂, hcur, hfree, hok⟩ := vmalloc_two hboot
  obtain ⟨s₃, hv₃⟩ := vmalloc_third hcur hfree hok
  have hx : Reach (VmemStart Image.readme) (VmemStep Image.readme) ⟨s₁, {0x300014}⟩ :=
    .step (i := .vmalloc 8) (.init (s := ⟨s, ∅⟩) ⟨_, hr, rfl⟩) ⟨by decide, by decide, _, hv₁, rfl⟩
  have htakes : TakesAligned s₁ 1000 := by
    obtain ⟨bs, hok₁⟩ := vmemReach_ok hx
    obtain ⟨_, b, -, -, -, hp, -, halign⟩ :=
      hok₁.vmalloc_block (n := 1000) (by decide) (by decide) hv₂
    exact halign.mp (by omega)
  have hthird : VmemStep Image.readme ⟨s₂, {0x301014, 0x300014}⟩ (.vmalloc 100)
      ⟨s₃, {0x302014, 0x301014, 0x300014}⟩ := ⟨by decide, by decide, _, hv₃, rfl⟩
  have hrun : Trace (VmemStep Image.readme) ⟨s₂, {0x301014, 0x300014}⟩
      [(.vmalloc 100, ⟨s₃, {0x302014, 0x301014, 0x300014}⟩)] := ⟨hthird, trivial⟩
  obtain ⟨n, hn, hknow, hall⟩ :=
    (vsize_knows_live hx (by decide) (by decide) hv₂ rfl hrun (by simp)).mpr htakes
  exact ⟨_, _, _, hx, rfl, ⟨by decide, by decide, _, hv₂, rfl⟩, hthird, rfl, n, hn, hknow,
    hall _ List.mem_cons_self⟩

/-- The second block of 8 bytes in a freed one of 104 is unknown to `vsize`. -/
theorem vsize_forgets_split : ∃ (x : VmemSys Flat) (s' : State Flat),
    Reach (VmemStart Image.readme) (VmemStep Image.readme) x ∧
    vmalloc Image.readme 8 x.st = .ok 0x300030 s' ∧ load32 s'.mem.data 0x30001C = 8 ∧
    vsize 0x300030 s' = .ok 0 s' := by
  obtain ⟨x, y, z, hx, hxy, hyz, -, hokz, -⟩ := vmalloc_vfree_first
  have hokz : VmemOk Image.readme z ([] ++ ⟨0x300000, 104, true, some 4076⟩ :: []) := hokz
  obtain ⟨s₁, hv₁, -, -, hok₁⟩ := hokz.serve (n := 8) (by decide) (by simp) ⟨rfl, by decide⟩
  have hok₁ : VmemOk Image.readme ⟨s₁, insert 0x300014 z.live⟩
      ([⟨0x300000, 8, false, some 4076⟩] ++ ⟨0x30001C, 76, true, none⟩ :: []) := hok₁
  obtain ⟨s₂, hv₂, -, -, hok₂⟩ := hok₁.serve (n := 8) (by decide)
    (by simp [VBlk.Fits]) ⟨rfl, by decide⟩
  have hmem : (⟨0x30001C, 8, false, none⟩ : VBlk) ∈ [⟨0x300000, 8, false, some 4076⟩] ++
      (⟨0x30001C, 76, true, none⟩ : VBlk).serve (round8 8) ++ [] :=
        List.mem_cons_of_mem _ List.mem_cons_self
  refine ⟨_, s₂, ?_, hv₂, (hok₂.list.list.holds _ hmem).1, ?_⟩
  · exact .step (i := .vmalloc 8) (.step (.step (.init hx) hxy.2) hyz.2)
      ⟨by decide, by decide, _, hv₁, rfl⟩
  · exact vsize_used hok₂.list hmem rfl (by decide)

/-! ## Taking freed memory again -/

/-- The listed block that the head takes over when the block at `q` is freed. -/
def vfreeAbsorbs (m : Mem) (q : Nat) : List Nat → Option Nat
  | a :: b :: _ =>
    if (load32 m (a + 8) ≠ 0 ∨ a = q) ∧ (load32 m (b + 8) ≠ 0 ∨ b = q) ∧
        add32 (add32 a vmemHeader) (load32 m (a + 4)) = b then some b else none
  | _ => none

/-- Some listed block is large enough for `k` bytes, free once `p` is freed, and not taken
over by the head then. -/
def Reusable (s : State Flat) (p k : Nat) : Prop :=
  ∃ as, Follows s.mem.data 16 s.vmem.vmemList as ∧ ∃ a ∈ as,
    (load32 s.mem.data (a + 8) ≠ 0 ∨ a = p - 20) ∧ round8 k ≤ load32 s.mem.data a ∧
    vfreeAbsorbs s.mem.data (p - 20) as ≠ some a

def ServedFromList (img : Image) (s : State Flat) (k : Nat) : Prop :=
  ∃ q s', vmalloc img k s = .ok q s' ∧ s'.vmem.vmemCurrent = s.vmem.vmemCurrent ∧ s'.pmm = s.pmm

section Absorb

variable {s : State Flat} {bs : List VBlk}

/-- A block once the one at `q` is freed. -/
def VBlk.freedAt (q : Nat) (b : VBlk) : VBlk := { b with free := b.free || decide (b.addr = q) }

/-- The second block of a list whose head takes it over. -/
def vabsorbed : List VBlk → Option Nat
  | x :: y :: _ =>
    if x.free = true ∧ y.free = true ∧ x.cap.map (x.addr + 20 + ·) = some y.addr then some y.addr
    else none
  | _ => none

theorem VList.freedAt_map {e : Nat} {pre post : List VBlk} {b : VBlk}
    (h : VList e (pre ++ b :: post)) :
    (pre ++ b :: post).map (VBlk.freedAt b.addr) = pre ++ b.release :: post := by
  have hother : ∀ c ∈ pre ++ post, c.freedAt b.addr = c := by
    intro c hc
    have := pairwise_split h.apart hc
    have hne : c.addr ≠ b.addr := by omega
    simp [VBlk.freedAt, hne]
  have hself : b.freedAt b.addr = b.release := by simp [VBlk.freedAt, VBlk.release]
  have hmap : ∀ cs : List VBlk, (∀ c ∈ cs, c ∈ pre ++ post) →
    cs.map (VBlk.freedAt b.addr) = cs := by
    intro cs hcs
    rw [List.map_congr_left (g := id) fun c hc => hother c (hcs c hc), List.map_id]
  rw [List.map_append, List.map_cons, hself, hmap pre fun c hc => by simp [hc],
    hmap post fun c hc => by simp [hc]]

/-- Whether the words in memory say that a block is free once that at `q` is. -/
theorem VmemInv.freed_iff (h : VmemInv flatData s bs) (q : Nat) {b : VBlk} (hb : b ∈ bs) :
    (load32 s.mem.data (b.addr + 8) ≠ 0 ∨ b.addr = q) ↔ (b.freedAt q).free = true := by
  rw [show load32 s.mem.data (b.addr + 8) = if b.free then 1 else 0 from (h.list.holds b hb).2.1]
  unfold VBlk.freedAt
  cases b.free <;> simp

theorem VmemInv.absorbs_eq (h : VmemInv flatData s bs) (q : Nat) :
    vfreeAbsorbs s.mem.data q (bs.map VBlk.addr) = vabsorbed (bs.map (VBlk.freedAt q)) := by
  match bs, h with
  | [], _ => rfl
  | [_], _ => rfl
  | x :: y :: ys, h =>
    obtain ⟨c, hc⟩ := Option.isSome_iff_exists.mp (h.blocks.head x rfl)
    have hcap : load32 s.mem.data (x.addr + 4) = c := (h.list.holds x (by simp)).2.2.2 c hc
    have hw := h.blocks.whole x (by simp) c hc
    have hhi := h.hi
    have hend : add32 (add32 x.addr vmemHeader) c = x.addr + 20 + c := by
      simp only [vmemHeader, add32]
      omega
    have htest : ((x.freedAt q).cap.map ((x.freedAt q).addr + 20 + ·) = some (y.freedAt q).addr) ↔
        x.addr + 20 + c = y.addr := by
      show x.cap.map (x.addr + 20 + ·) = some y.addr ↔ _
      rw [hc]
      simp
    simp only [List.map_cons, vfreeAbsorbs, vabsorbed, h.freed_iff q (b := x) (by simp),
      h.freed_iff q (b := y) (by simp), hcap, hend, htest]
    rfl

/-- **After the merge**, the blocks that fit are those of before, less the one taken over. -/
theorem vmerge_fits {e r : Nat} {cs : List VBlk} (h : VList e cs) :
    (∃ c ∈ vmerge cs, c.Fits r) ↔ ∃ c ∈ cs, c.Fits r ∧ vabsorbed cs ≠ some c.addr := by
  have hkeep : vmerge cs = cs → vabsorbed cs = none →
      ((∃ c ∈ vmerge cs, c.Fits r) ↔ ∃ c ∈ cs, c.Fits r ∧ vabsorbed cs ≠ some c.addr) := by
    intro h1 h2
    simp [h1, h2]
  match cs, h with
  | [], _ => exact hkeep rfl rfl
  | [x], _ =>
    refine hkeep ?_ rfl
    obtain ⟨a, z, _ | _, _ | c⟩ := x <;> rfl
  | x :: y :: ys, h =>
    obtain ⟨a, z, f, cap⟩ := x
    obtain ⟨a', z', f', cap'⟩ := y
    obtain ⟨c, rfl⟩ : ∃ c, cap = some c := Option.isSome_iff_exists.mp (h.head _ rfl)
    by_cases hmerge : f = true ∧ f' = true ∧ a + 20 + c = a'
    swap
    · exact hkeep (vmerge_apart hmerge) (if_neg (by simpa using hmerge))
    obtain ⟨rfl, rfl, rfl⟩ := hmerge
    obtain ⟨c', rfl⟩ : ∃ c', cap' = some c' := h.cap_of_touch
    have hab : vabsorbed (⟨a, z, true, some c⟩ :: ⟨a + 20 + c, z', true, some c'⟩ :: ys) =
        some (a + 20 + c) := if_pos ⟨rfl, rfl, rfl⟩
    have hap := h.apart
    rw [List.pairwise_cons, List.pairwise_cons] at hap
    rw [hab, vmerge_touching]
    constructor
    · rintro ⟨d, hd, hfit⟩
      rcases List.mem_cons.mp hd with rfl | hd
      · refine ⟨_, List.mem_cons_self, hfit, fun heq => ?_⟩
        injection heq with heq
        have heq : a + 20 + c = a := heq
        omega
      · refine ⟨d, by simp [hd], hfit, fun heq => ?_⟩
        injection heq with heq
        have : a + 20 + c + 20 + z' ≤ d.addr := hap.2.1 d hd
        omega
    · rintro ⟨d, hd, hfit, hne⟩
      simp only [List.mem_cons] at hd
      rcases hd with rfl | rfl | hd
      · exact ⟨_, List.mem_cons_self, hfit⟩
      · exact absurd rfl hne
      · exact ⟨d, List.mem_cons_of_mem _ hd, hfit⟩

end Absorb

theorem VmemOk.served_iff {x : VmemSys Flat} {bs : List VBlk} (h : VmemOk img x bs) {k : Nat}
    (hk : 1 ≤ k) (hk' : k ≤ 0xC00000) :
    ServedFromList img x.st k ↔ ∃ c ∈ bs, c.Fits (round8 k) := by
  have hround := round8_bounds (n := k) (by omega)
  have hhi := h.list.hi
  constructor
  · rintro ⟨q, s', hr, hcur, -⟩
    obtain ⟨pre, b, post, rfl, -, hb, -⟩ | ⟨-, -, j, hx, -⟩ :=
      h.vmalloc_cases (by omega) (by omega) hr
    · exact ⟨b, by simp, hb⟩
    · have hroom := hx.room
      have hend : s'.vmem.vmemCurrent = x.st.vmem.vmemCurrent + j * 4096 := hx.current
      omega
  · rintro ⟨c, hc, hfit⟩
    rcases first_such (VBlk.Fits (round8 k)) bs with hfull | ⟨pre, b, post, rfl, hpre, hb⟩
    · exact absurd hfit (hfull c hc)
    · obtain ⟨s', hv, hvm, hpmm, -⟩ := h.serve (by omega) hpre hb
      exact ⟨_, s', hv, by rw [hvm], hpmm⟩

/-- **When freed memory is found again.** In every reachable state, for every live pointer
`p` and every `k` up to its recorded size, `vmalloc(k)` right after `vfree(p)` is served
from the list if and only if the list has a block for `k` bytes that is free once `p` is
freed and that the head does not take over then. -/
theorem freed_memory_reused {x : VmemSys Flat} (h : Reach (VmemStart img) (VmemStep img) x)
    {p k : Nat} (hp : p ∈ x.live) (hk : 1 ≤ k) (hk' : k ≤ x.sizeOf p) :
    ∃ s₁, vfree p x.st = .ok () s₁ ∧ (ServedFromList img s₁ k ↔ Reusable x.st p k) := by
  obtain ⟨bs, hok⟩ := vmemReach_ok h
  obtain ⟨b, hb, hf, rfl⟩ := hok.live p hp
  have hbnd := hok.list.mem hb
  have hsize : x.sizeOf (b.addr + 20) = b.size := (hok.list.list.holds b hb).1
  obtain ⟨pre, post, rfl⟩ := List.append_of_mem hb
  obtain ⟨s₁, hv, -, -, hok'⟩ := hok.release hf
  refine ⟨_, hv, (hok'.served_iff hk (by omega)).trans ?_⟩
  have hlist : VList x.st.vmem.vmemCurrent (pre ++ b.release :: post) :=
    hok.list.blocks.setFree true
  have habs := hok.list.absorbs_eq b.addr
  rw [vmerge_fits hlist, ← hok.list.blocks.freedAt_map, ← habs]
  unfold Reusable
  rw [Nat.add_sub_cancel]
  have hholds := hok.list.list.holds
  constructor
  · rintro ⟨c, hc, hfit, hne⟩
    obtain ⟨e, he, rfl⟩ := List.mem_map.mp hc
    refine ⟨_, hok.list.follows, e.addr, List.mem_map.mpr ⟨e, he, rfl⟩,
      (hok.list.freed_iff _ he).mpr hfit.1, ?_, hne⟩
    rw [show load32 x.st.mem.data e.addr = e.size from (hholds e he).1]
    exact hfit.2
  · rintro ⟨as, hfol, a, ha, hfree, hle, hne⟩
    obtain rfl := hfol.unique hok.list.follows
    obtain ⟨e, he, rfl⟩ := List.mem_map.mp ha
    rw [show load32 x.st.mem.data e.addr = e.size from (hholds e he).1] at hle
    exact ⟨_, List.mem_map.mpr ⟨e, he, rfl⟩, ⟨(hok.list.freed_iff _ he).mp hfree, hle⟩, hne⟩

/-- The only block, freed, serves the same request again. -/
theorem freed_memory_reused_first : ∃ (x : VmemSys Flat) (s₁ : State Flat),
    Reach (VmemStart Image.readme) (VmemStep Image.readme) x ∧ 0x300014 ∈ x.live ∧
    vfree 0x300014 x.st = .ok () s₁ ∧ ServedFromList Image.readme s₁ 100 := by
  obtain ⟨x, y, z, hx, hxy, hyz, hoky, -⟩ := vmalloc_vfree_first
  have hreach : Reach (VmemStart Image.readme) (VmemStep Image.readme) y := .step (.init hx) hxy.2
  have hhold := hoky.list.list.holds ⟨0x300000, 104, false, some 4076⟩ (by simp)
  have hsize : y.sizeOf 0x300014 = 104 := hhold.1
  obtain ⟨s₁, hf, hiff⟩ := freed_memory_reused (k := 100) hreach hyz.2.1 (by decide) (by omega)
  refine ⟨y, s₁, hreach, hyz.2.1, hf,
    hiff.mpr ⟨_, hoky.list.follows, 0x300000, by simp, .inr rfl, ?_, ?_⟩⟩
  · show 104 ≤ y.sizeOf 0x300014
    omega
  · exact fun h => by cases h

theorem vmalloc_two_free_first : ∃ x : VmemSys Flat,
    Reach (VmemStart Image.readme) (VmemStep Image.readme) x ∧ 0x301014 ∈ x.live ∧
    VmemOk Image.readme x [⟨0x300000, 8, true, some 4076⟩, ⟨0x301000, 1000, false, some 4076⟩] := by
  obtain ⟨x, hx, hlive, hok⟩ := vmemRun_two
  have hok : VmemOk Image.readme x
      ([] ++ ⟨0x300000, 8, false, some 4076⟩ :: [⟨0x301000, 1000, false, some 4076⟩]) := hok
  obtain ⟨s₁, hf, -, -, hok₁⟩ := hok.release rfl
  exact ⟨_, .step (i := .vfree 0x300014) hx ⟨by simp [hlive], hf, rfl⟩, by simp [hlive], hok₁⟩

/-- The head takes over the freed block of 1000 bytes, and the next request for 1000 bytes
gets fresh pages. -/
theorem freed_memory_lost : ∃ (x : VmemSys Flat) (s₁ : State Flat),
    Reach (VmemStart Image.readme) (VmemStep Image.readme) x ∧ 0x301014 ∈ x.live ∧
    x.sizeOf 0x301014 = 1000 ∧ vfree 0x301014 x.st = .ok () s₁ ∧
    ¬ ServedFromList Image.readme s₁ 1000 := by
  obtain ⟨x, hx, hlive, hok⟩ := vmalloc_two_free_first
  have hsize : x.sizeOf 0x301014 = 1000 :=
    (hok.list.list.holds ⟨0x301000, 1000, false, some 4076⟩ (by simp)).1
  have hok : VmemOk Image.readme x
      ([⟨0x300000, 8, true, some 4076⟩] ++ ⟨0x301000, 1000, false, some 4076⟩ :: []) := hok
  obtain ⟨s₁, hf, -, -, hok₁⟩ := hok.release rfl
  have hok₁ :
      VmemOk Image.readme ⟨s₁, x.live.erase 0x301014⟩ [⟨0x300000, 8, true, some 8172⟩] := hok₁
  refine ⟨x, s₁, hx, hlive, hsize, hf, fun hserved => ?_⟩
  obtain ⟨c, hc, hfit⟩ := (hok₁.served_iff (by decide) (by decide)).mp hserved
  rw [List.mem_singleton] at hc
  subst hc
  exact absurd hfit.2 (by decide)

end Kfs
