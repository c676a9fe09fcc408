import Kfs.Boot

/-!
# Is start-up safe against early commands?

`paging_init` maps every page to itself again, whatever `vmalloc` has mapped before
it, while the bitmap and the list of blocks stay: a block from before `paging_init`
is left with the frames at its own addresses, which `kheap_init` then hands to the
heap. A block from between `paging_init` and `paging_enable` keeps its frames, but its
header was written with paging off, and the code no longer sees it once paging is on.

`BootOk` is the state that runs keep to if they avoid both: the pages of the region
have the frames from `256` on, in order, and those are the frames in use.
-/

namespace Kfs

open Kfs.Lib

variable {img : Image}

/-! ## The list of blocks -/

theorem listed_append {d : Mem} {q e r c : Nat} {as : List Nat} (hf : Follows d 16 q as)
    (has : ∀ a ∈ as, a % 4096 = 0 ∧ 0 < a ∧ a < e ∧ load32 d (a + 8) = 0) (he : e % 4096 = 0)
    (hpos : 0 < e) (hlt : e < 2 ^ 32) :
    Follows (vlinked (newHeader d e r c) (as.getLastD 0) e) 16
        (if as.getLastD 0 ≠ 0 then q else e) (as ++ [e]) ∧
      ∀ a ∈ as ++ [e], load32 (vlinked (newHeader d e r c) (as.getLastD 0) e) (a + 8) = 0 := by
  have hnext : load32 (newHeader d e r c) (e + 16) = 0 := load32_store32 (by decide)
  have hfree : load32 (newHeader d e r c) (e + 8) = 0 := by
    unfold newHeader
    simp (disch := omega) only [load32_store32_ne, load32_store32]
  have hold : ∀ a ∈ as, ∀ i, i ≤ 16 → load32 (newHeader d e r c) (a + i) = load32 d (a + i) := by
    intro a ha i hi
    have := has a ha
    exact (newHeader_same d e r c).load32 fun x h1 h2 => by omega
  rcases List.eq_nil_or_concat as with rfl | ⟨pre, l, rfl⟩
  · rw [List.getLastD_nil, vlinked, if_neg (by simp), if_neg (by simp), List.nil_append]
    refine ⟨.cons (by omega) (hnext ▸ .nil), fun a ha => ?_⟩
    rw [List.mem_singleton.mp ha]
    exact hfree
  · rw [List.concat_eq_append] at *
    have hl := has l (by simp)
    have hpre : l ∉ pre := by
      have hnodup := List.nodup_append.mp hf.nodup
      exact fun hm => hnodup.2.2 l hm l (by simp) rfl
    -- the link is written into the last header only
    have hlink : ∀ a, a % 4096 = 0 → a ≠ l → ∀ i, i ≤ 16 →
        load32 (store32 (newHeader d e r c) (l + 16) e) (a + i) =
          load32 (newHeader d e r c) (a + i) :=
      fun a ha hne i hi => load32_store32_ne (by omega)
    rw [List.getLastD_concat, vlinked, if_pos (by omega), if_pos (by omega)]
    refine ⟨hf.snoc (by omega) (fun a ha => ?_) (load32_store32 hlt) ?_, fun a ha => ?_⟩
    · have := has a (by simp [ha])
      rw [hlink a this.1 (fun h => hpre (h ▸ ha)) 16 (by omega),
        hold a (by simp [ha]) 16 (by omega)]
    · rw [hlink e he (by omega) 16 (by omega), hnext]
    · rw [load32_store32_ne ?_]
      · rcases List.mem_append.mp ha with ha | ha
        · rw [hold a ha 8 (by omega)]
          exact (has a ha).2.2.2
        · rw [List.mem_singleton.mp ha]
          exact hfree
      · rcases List.mem_append.mp ha with ha | ha
        · have := has a ha
          omega
        · rw [List.mem_singleton.mp ha]
          omega

/-! ## The invariant -/

/-- The pages of the region, once there are `k`, have the frames from `256` on. -/
def regionMap (k : Nat) : Nat → Nat := assigned id 0x300 k 256

/-- **The invariant** after `paging_init` and before `kheap_init`. -/
structure BootOk (img : Image) (x : BootSys) (k : Nat) : Prop where
  map : BootMap img x.st (regionMap k) (256 + k)
  hi : k < 0x300
  current : x.st.vmem.vmemCurrent = (0x300 + k) * 4096
  live : ∀ b ∈ x.live, b.ptr % 4096 = 20 ∧ kvmemStart < b.ptr ∧
    b.ptr + b.size ≤ (0x300 + k) * 4096

theorem regionMap_inj {k i j : Nat} (hi : 0x300 ≤ i) (hik : i < 0x300 + k) (hj : 0x300 ≤ j)
    (hjk : j < 0x300 + k) (h : regionMap k i = regionMap k j) : i = j := by
  unfold regionMap assigned at h
  rw [if_pos ⟨hi, hik⟩, if_pos ⟨hj, hjk⟩] at h
  omega

section Vmalloc

variable {x : BootSys} {k : Nat}

theorem BootMap.shows {s : State Mmu} (h : BootMap img s (regionMap k) (256 + k))
    (hk : k < 0x300) : Shows img s (regionMap k) ((0x300 + k) * 4096) s.mem.seen where
  map := h.map
  hi := by omega
  inj i j hi hik hj hjk := regionMap_inj hi (by omega) hj (by omega)
  sees _ _ _ := rfl

/-- New pages do not change what the code sees on the old ones. -/
theorem BootMap.seen_old {s s' : State Mmu} {k' v : Nat} (h : BootMap img s (regionMap k) (256 + k))
    (h' : BootMap img s' (regionMap k') (256 + k')) (hkk : k ≤ k') (hk : k < 0x300)
    (hon : s'.mem.pagingOn = s.mem.pagingOn)
    (hsame : SameOff (StaticTables img) s.mem.phys s'.mem.phys)
    (hlo : kvmemStart ≤ v) (hv : v < (0x300 + k) * 4096) : s'.mem.seen v = s.mem.seen v := by
  have hpd := img.pdHi
  have hpt := img.ptHi
  simp only [kvmemStart] at hlo
  have hF : regionMap k' (v / 4096) = regionMap k (v / 4096) := by
    unfold regionMap assigned
    rw [if_pos (by omega), if_pos (by omega)]
  have hplace : s'.mem.place (regionMap k') v = s.mem.place (regionMap k) v := by
    unfold Mmu.place
    rw [hon, hF]
  have hout := h.map.place_high (v := v) (by omega) (by omega)
  rw [h'.map.seen (by omega), h.map.seen (by omega), hplace]
  exact hsame _ fun hs => by rcases hs with hs | hs <;> omega

theorem BootOk.header (h : BootOk img x k) {a : Nat} (ha : ∃ b ∈ x.live, b.ptr = a + vmemHeader) :
    kvmemStart ≤ a ∧ a + 20 ≤ (0x300 + k) * 4096 ∧ a % 4096 = 0 := by
  obtain ⟨b, hb, hptr⟩ := ha
  have := h.live b hb
  simp only [vmemHeader, kvmemStart] at *
  omega

theorem BootMap.grow {s s' : State Mmu} {c : Nat} (h : BootMap img s (regionMap k) (256 + k))
    (hk : k + c < 0x300)
    (hr : Kfs.vmallocMap img ((0x300 + k) * 4096) ((0x300 + k + c) * 4096) s = .ok () s') :
    BootMap img s' (regionMap (k + c)) (256 + (k + c)) ∧ s'.vmem = s.vmem ∧
      s'.mem.pagingOn = s.mem.pagingOn ∧ SameOff (StaticTables img) s.mem.phys s'.mem.phys := by
  obtain ⟨p, d, he, hmap, hsame⟩ := h.vmallocMap (j := 0x300 + k) (c := c) (by omega) (by omega)
    (by omega)
  rw [hr] at he
  cases he
  rw [regionMap, assigned_append, Nat.add_assoc] at hmap
  exact ⟨hmap, rfl, rfl, hsame⟩

theorem BootMap.append {s s' : State Mmu} {a r c e p : Nat} {as : List Nat}
    (h : BootMap img s (regionMap k) (256 + k)) (hk : k < 0x300) (hcur : s.vmem.vmemCurrent = a)
    (ha : kvmemStart ≤ a ∧ a + 20 ≤ (0x300 + k) * 4096 ∧ a % 4096 = 0)
    (hf : Follows s.mem.seen 16 s.vmem.vmemList as)
    (has : ∀ b ∈ as, kvmemStart ≤ b ∧ b + 20 ≤ a ∧ b % 4096 = 0 ∧ load32 s.mem.seen (b + 8) = 0)
    (hr : vmemAppend r (as.getLastD 0) c e s = .ok p s') :
    p = a + 20 ∧ s'.mem.pagingOn = s.mem.pagingOn ∧ s'.vmem.vmemCurrent = e ∧
      BootMap img s' (regionMap k) (256 + k) ∧ Follows s'.mem.seen 16 s'.vmem.vmemList (as ++ [a]) ∧
      ∀ b ∈ as ++ [a], load32 s'.mem.seen (b + 8) = 0 := by
  have hlast : as.getLastD 0 ≠ 0 → kvmemStart ≤ as.getLastD 0 ∧
      as.getLastD 0 + 20 ≤ (0x300 + k) * 4096 ∧ as.getLastD 0 % 4096 = 0 := by
    intro hne
    rcases List.eq_nil_or_concat as with rfl | ⟨pre, l, rfl⟩
    · exact absurd rfl hne
    · have := has l (by simp)
      rw [List.concat_eq_append, List.getLastD_concat]
      exact ⟨this.1, by omega, this.2.2.1⟩
  obtain ⟨q, cap, hr', hshow⟩ := (h.shows hk).append r c e hcur ha.1 ha.2.1 ha.2.2 hlast
  rw [hr] at hr'
  cases hr'
  have hlo := ha.1
  simp only [kvmemStart] at hlo
  obtain ⟨hf', hfree⟩ := listed_append (r := r) (c := cap) hf (fun b hb => by
    have := has b hb
    simp only [kvmemStart] at this
    exact ⟨this.2.2.1, by omega, by omega, this.2.2.2⟩) ha.2.2 (by omega) (by omega)
  -- the headers are in the region, where the code sees what was stored
  have hword : ∀ b ∈ as ++ [a], ∀ i, i ≤ 16 → load32 (s.setPhys q).mem.seen (b + i) =
      load32 (vlinked (newHeader s.mem.seen a r cap) (as.getLastD 0) a) (b + i) := by
    intro b hb i hi
    have hin : kvmemStart ≤ b ∧ b + 20 ≤ (0x300 + k) * 4096 := by
      rcases List.mem_append.mp hb with hb | hb
      · have := has b hb
        exact ⟨this.1, by omega⟩
      · rw [List.mem_singleton.mp hb]
        exact ⟨ha.1, ha.2.1⟩
    exact load32_congr fun v h1 h2 => hshow.sees v (by omega) (by omega)
  exact ⟨rfl, rfl, rfl, ⟨hshow.map, h.used, h.ge⟩, hf'.congr fun b hb => hword b hb 16 (by omega),
    fun b hb => (hword b hb 8 (by omega)).trans (hfree b hb)⟩

/-- **`vmalloc`** between `paging_init` and `kheap_init`, over an intact list. -/
theorem BootOk.vmalloc (h : BootOk img x k) (hlist : ListIntact x) {n p : Nat} {s' : State Mmu}
    (hn : n ≠ 0) (hsize : x.st.vmem.vmemCurrent + n + 4122 < 2 ^ 32)
    (hr : vmalloc img n x.st = .ok p s') :
    p ≠ 0 ∧ s'.mem.pagingOn = x.st.mem.pagingOn ∧ ∃ k',
      BootOk img ⟨s', x.phase, ⟨p, n, x.phase⟩ :: x.live⟩ k' ∧
      ListIntact ⟨s', x.phase, ⟨p, n, x.phase⟩ :: x.live⟩ := by
  obtain ⟨as, hf, has⟩ := hlist
  have hcur := h.current
  have hround := round8_bounds (n := n) (by omega)
  have hhdr := fun a ha => h.header (has a ha).1
  -- the search runs off the end
  unfold Kfs.vmalloc at hr
  rw [if_neg hn, get_bind_apply] at hr
  obtain ⟨res, t, hsearch, hexp⟩ := bind_eq_ok.mp hr
  obtain ⟨rfl, rfl⟩ := (h.map.shows h.hi).search hf (fun a ha =>
    ⟨(hhdr a ha).1, (hhdr a ha).2.1, (hhdr a ha).2.2, (has a ha).2⟩) hsearch
  -- the new pages
  obtain ⟨c, e, s₁, -, hc, he, hlim, hloop, happ⟩ := vmallocExpand_ok (by omega) hexp
  simp only [kvmemEnd] at hlim
  have hk' : k + c < 0x300 := by omega
  rw [hcur, ← Nat.add_mul] at he
  rw [hcur, he] at hloop
  obtain ⟨hmap, hvmem, hon, hsame⟩ := h.map.grow hk' hloop
  have hseen :
      ∀ a ∈ as, ∀ i, i ≤ 16 → load32 s₁.mem.seen (a + i) = load32 x.st.mem.seen (a + i) := by
    intro a ha i hi
    have := hhdr a ha
    exact load32_congr fun v h1 h2 => h.map.seen_old hmap (by omega) h.hi hon hsame
      (by omega) (by omega)
  -- the new block
  have hf₁ : Follows s₁.mem.seen 16 s₁.vmem.vmemList as := by
    rw [hvmem]
    exact hf.congr fun a ha => hseen a ha 16 (by omega)
  obtain ⟨rfl, hon', hcur', hmap', hf', hfree⟩ := hmap.append hk' (a := (0x300 + k) * 4096)
    (by rw [hvmem, hcur]) ⟨by simp only [kvmemStart]; omega, by omega, by omega⟩ hf₁ (fun a ha =>
      ⟨(hhdr a ha).1, (hhdr a ha).2.1, (hhdr a ha).2.2,
        (hseen a ha 8 (by omega)).trans (has a ha).2⟩) happ
  refine ⟨by omega, hon'.trans hon, k + c, ⟨hmap', hk', hcur'.trans (he.trans (by omega)), ?_⟩,
    as ++ [(0x300 + k) * 4096], hf', fun a ha => ⟨?_, hfree a ha⟩⟩
  · intro b hb
    rcases List.mem_cons.mp hb with rfl | hb
    · simp only [kvmemStart]
      omega
    · obtain ⟨h1, h2, h3⟩ := h.live b hb
      exact ⟨h1, h2, h3.trans (Nat.mul_le_mul_right _ (by omega))⟩
  · rcases List.mem_append.mp ha with ha | ha
    · obtain ⟨b, hb, hptr⟩ := (has a ha).1
      exact ⟨b, List.mem_cons_of_mem _ hb, hptr⟩
    · exact ⟨_, List.mem_cons_self, by rw [List.mem_singleton.mp ha]; rfl⟩

end Vmalloc

/-! ## The steps of `memory_init` -/

/-- The tables that `paging_init` builds map every page to itself. -/
theorem InitialTables.mapped {t : Mem} (h : InitialTables img t) (c : Nat) :
    Mapped img ⟨t, c, img.pageDirectory⟩ id where
  cr3 := rfl
  pde i hi := h.low.pde i hi
  pte j hj := by
    have := h.pte (j / 1024) (j % 1024) (by omega) (by omega)
    rw [show img.pageTables + 4096 * (j / 1024) + 4 * (j % 1024) = img.pageTables + 4 * j by
      omega] at this
    rw [this, show j / 1024 * 1024 + j % 1024 = j by omega]
    rfl
  low _ _ := rfl
  high _ h1 h2 := ⟨h1, h2⟩

theorem bootOk_pagingInit {s : State Mmu} {t : Mem} {c : Nat} (hused : Used s.pmm (· < 256))
    (hvmem : s.vmem = ⟨kvmemStart, 0, 0⟩) (ht : InitialTables img t) :
    BootOk img ⟨{ s with mem := ⟨t, c, img.pageDirectory⟩ }, .tables, []⟩ 0 where
  map := by
    rw [regionMap, assigned_zero]
    exact ⟨ht.mapped c, hused, by omega⟩
  hi := by omega
  current := by
    show s.vmem.vmemCurrent = _
    rw [hvmem]
    rfl
  live := by simp

/-- `paging_enable` changes no table. -/
theorem BootOk.pagingEnable {x : BootSys} {k : Nat} (h : BootOk img x k)
    (c : Nat) (ph : BootPhase) :
    BootOk img ⟨{ x.st with mem := { x.st.mem with cr0 := c } }, ph, x.live⟩ k where
  map := ⟨⟨h.map.map.cr3, h.map.map.pde, h.map.map.pte, h.map.map.low, h.map.map.high⟩, h.map.used,
    h.map.ge⟩
  hi := h.hi
  current := h.current
  live := h.live

/-- The frame of page `j` after `kheap_init`: the region has those from `256` on and
the heap the next ones. -/
def heapFrame (k j : Nat) : Nat := if j < 0x300 then j - 0x100 + k else j - 0x200

theorem heapFrame_eq {k j : Nat} (hlo : 0x200 ≤ j) (hj : j < 0x300 + k) :
    assigned (regionMap k) 0x200 256 (256 + k) j = 0x100 + heapFrame k j := by
  unfold heapFrame assigned
  split
  · rw [if_pos (by omega)]
    omega
  · rw [if_neg (by omega), regionMap, assigned, if_pos (by omega)]
    omega

theorem heapFrame_lt {k j : Nat} (hj : j < 0x300 + k) : heapFrame k j < 512 + k := by
  unfold heapFrame
  split <;> omega

theorem heapFrame_inj {k i j : Nat} (hi : 0x200 ≤ i) (hik : i < 0x300 + k) (hj : 0x200 ≤ j)
    (hjk : j < 0x300 + k) (h : heapFrame k i = heapFrame k j) : i = j := by
  unfold heapFrame at h
  split at h <;> split at h <;> omega

/-- **`kheap_init`** leaves every page with a frame of its own. -/
theorem BootOk.backed {x : BootSys} {k : Nat} {s' : State Mmu} (h : BootOk img x k)
    (hon : x.st.mem.pagingOn = true) (hr : kheapInit img x.st = .ok () s') :
    BootBacked ⟨s', .done, x.live⟩ := by
  have hk := h.hi
  obtain ⟨s₁, hr₁, hon₁, hmap⟩ := h.map.kheapInit (by omega)
  rw [hr] at hr₁
  cases hr₁
  have hpage : ∀ v, BootPage ⟨s', .done, x.live⟩ v →
      v % 4096 = 0 ∧ 0x200 ≤ v / 4096 ∧ v / 4096 < 0x300 + k := by
    rintro v ⟨hv, hin | ⟨b, hb, h1, h2⟩⟩
    · simp only [kheapStart, kheapEnd] at hin
      exact ⟨hv, by omega, by omega⟩
    · obtain ⟨h3, h4, h5⟩ := h.live b hb
      simp only [vmemHeader, kvmemStart] at h1 h4
      exact ⟨hv, by omega, by omega⟩
  have hplace : ∀ v, BootPage ⟨s', .done, x.live⟩ v → ∀ o, o < 4096 → ∀ w,
      s'.mem.translate w (v + o) = .ok (frameAddr (heapFrame k (v / 4096)) + o) := by
    intro v hv o ho w
    obtain ⟨hal, hlo, hhi⟩ := hpage v hv
    rw [hmap.map.translate (by omega) w, Mmu.place, if_pos (by rw [hon₁, hon]),
      show (v + o) / 4096 = v / 4096 by omega, show (v + o) % 4096 = o by omega,
      heapFrame_eq hlo hhi, Nat.add_mul]
    rfl
  refine ⟨fun v hv => ⟨heapFrame k (v / 4096), ?_, ?_, hplace v hv⟩, fun v v' hv hv' hne heq => ?_⟩
  · have := heapFrame_lt (hpage v hv).2.2
    show _ < s'.pmm.totalPages
    rw [hmap.used.total]
    omega
  · have := heapFrame_lt (hpage v hv).2.2
    exact (hmap.used.bits _ (by omega)).mpr (by omega)
  · obtain ⟨hal, hlo, hhi⟩ := hpage v hv
    obtain ⟨hal', hlo', hhi'⟩ := hpage v' hv'
    have h1 := hplace v hv 0 (by omega) false
    have h2 := hplace v' hv' 0 (by omega) false
    rw [Nat.add_zero] at h1 h2
    rw [h1, h2] at heq
    injection heq with heq
    have hpages :=
      heapFrame_inj hlo hhi hlo' hhi' (by simp only [frameAddr, pageSize] at heq; omega)
    omega

/-! ## Runs -/

/-- What a clean run keeps to in each phase. -/
def BootInv (img : Image) (x : BootSys) : Prop :=
  match x.phase with
  | .start => BootStart x
  | .frames => x.live = [] ∧ x.st.mem.pagingOn = false ∧ x.st.vmem = ⟨kvmemStart, 0, 0⟩ ∧
      Used x.st.pmm (· < 256)
  | .tables => ∃ k, BootOk img x k ∧ x.st.mem.pagingOn = false ∧ (∀ b ∈ x.live, b.made = x.phase) ∧
      ListIntact x
  | .paging => ∃ k, BootOk img x k ∧ x.st.mem.pagingOn = true ∧
      ((∀ b ∈ x.live, b.made = x.phase) → ListIntact x)
  | .done => BootBacked x

theorem BootInv.init {x y : BootSys} (h : BootInv img x) (hs : BootStep img x .init y) :
    BootInv img y := by
  obtain ⟨s, ph, live⟩ := x
  obtain ⟨s', ph', live'⟩ := y
  obtain ⟨hph, hr, hnext, hlive⟩ := hs
  dsimp only at hph hr hnext hlive
  subst hnext hlive
  cases ph with
  | start =>
    obtain ⟨m, hoff, hx⟩ := h
    cases hx
    obtain ⟨p, hr', hused⟩ := pmmInit_used (State.boot m)
    rw [show bootInit img .start (State.boot m) = _ from hr'] at hr
    cases hr
    exact ⟨rfl, hoff, rfl, hused⟩
  | frames =>
    obtain ⟨rfl, hoff, hvmem, hused⟩ := h
    obtain ⟨t, hr', ht, -⟩ := pagingInit_off img (s := s) hoff
    rw [show bootInit img .frames s = _ from hr'] at hr
    cases hr
    refine ⟨0, bootOk_pagingInit hused hvmem ht, ?_, by simp, [], ?_, by simp⟩
    · show (s.mem.cr0 ||| 1 <<< 16).testBit 31 = false
      rw [Nat.testBit_or, show s.mem.cr0.testBit 31 = false from hoff]
      decide
    · show Follows _ 16 s.vmem.vmemList []
      rw [hvmem]
      exact .nil
  | tables =>
    obtain ⟨k, hok, hoff, hmade, hlist⟩ := h
    cases hr
    refine ⟨k, hok.pagingEnable _ _, pagingEnable_on _, fun hnew => ?_⟩
    -- no block can be from before and from after, so there is none
    obtain rfl : live' = [] := List.eq_nil_iff_forall_not_mem.mpr fun b hb => by
      have := (hmade b hb).symm.trans (hnew b hb)
      cases this
    obtain ⟨as, hf, has⟩ := hlist
    obtain rfl : as = [] := List.eq_nil_iff_forall_not_mem.mpr fun a ha => by
      simpa using (has a ha).1
    exact ⟨[], hf.congr (by simp), by simp⟩
  | paging =>
    obtain ⟨k, hok, hon, -⟩ := h
    exact hok.backed hon hr
  | done => exact absurd rfl hph

theorem BootInv.vmalloc {x y : BootSys} {n : Nat} (h : BootInv img x)
    (hc : BootClean x (.vmalloc n)) (hs : BootStep img x (.vmalloc n) y) : BootInv img y := by
  obtain ⟨s, ph, live⟩ := x
  obtain ⟨s', ph', live'⟩ := y
  obtain ⟨hph, -, hsame, p, hr, hlive⟩ := hs
  dsimp only at hph hsame hr hlive
  subst hsame hlive
  by_cases hn : n = 0
  · subst hn
    cases hr
    exact h
  obtain ⟨hpast, hsize, hlist⟩ := hc.resolve_left hn
  rcases hph with rfl | rfl | rfl
  · exact absurd rfl hpast
  · obtain ⟨k, hok, hoff, hmade, hintact⟩ := h
    obtain ⟨hp, hon, k', hok', hintact'⟩ := hok.vmalloc hintact hn hsize hr
    rw [if_neg hp]
    exact ⟨k', hok', hon.trans hoff, List.forall_mem_cons.mpr ⟨rfl, hmade⟩, hintact'⟩
  · obtain ⟨k, hok, hpg, himp⟩ := h
    obtain ⟨hp, hon, k', hok', hintact'⟩ := hok.vmalloc (hlist.elim himp id) hn hsize hr
    rw [if_neg hp]
    exact ⟨k', hok', hon.trans hpg, fun _ => hintact'⟩

theorem BootStep.inv {x y : BootSys} {op : BootOp} (h : BootInv img x) (hc : BootClean x op)
    (hs : BootStep img x op y) : BootInv img y := by
  cases op with
  | init => exact h.init hs
  | vmalloc n => exact h.vmalloc hc hs

/-- **Start-up with early commands.** In a clean run, once `memory_init` is done the pages
of the heap and of the live blocks have frames of their own, all marked in use. -/
theorem boot_backs_pages {x : BootSys} {tr : List (BootOp × BootSys)} (hx : BootStart x)
    (ht : Trace (BootStep img) x tr) (hc : Meets BootClean x tr) :
    ∀ p ∈ tr, p.2.phase = .done → BootBacked p.2 := by
  intro p hp hdone
  have hinv : BootInv img x := by
    obtain ⟨m, hoff, rfl⟩ := hx
    exact ⟨m, hoff, rfl⟩
  have hend := Trace.inv_all (fun _ _ _ h hc hs => BootStep.inv h hc hs) ht hc hinv p hp
  unfold BootInv at hend
  rw [hdone] at hend
  exact hend

/-! ## The first command -/

theorem vmalloc_eight {s : State Mmu} (h : s.vmem = ⟨kvmemStart, 0, 0⟩) :
    vmalloc img 8 s = (do
      vmallocMap img 0x300000 0x301000
      vmemAppend 8 0 1 0x301000 : K Mmu Nat) s := by
  obtain ⟨k, hk⟩ : ∃ k, maxRounds = k + 1 := ⟨maxRounds - 1, by have := maxRounds_eq; omega⟩
  have hsearch : iterate .outOfFuel (vmallocStep (round8 8)) maxRounds (0, s.vmem.vmemList) s =
      .ok (.last 0) s := by
    rw [hk, h]
    exact iterate_done rfl
  unfold vmalloc
  rw [if_neg (by decide), get_bind_apply, bind_of_ok hsearch]
  show vmallocExpand img 8 0 s = _
  unfold vmallocExpand
  rw [get_bind_apply, h]
  rfl

theorem BootOk.vmalloc_first {x : BootSys} (h : BootOk img x 0)
    (hvmem : x.st.vmem = ⟨kvmemStart, 0, 0⟩) :
    ∃ s', Kfs.vmalloc img 8 x.st = .ok 0x300014 s' := by
  obtain ⟨p, d, hloop, -, -⟩ := h.map.vmallocMap (j := 0x300) (c := 1) (by omega) (by omega)
    (by omega)
  have hgrow := h.map.grow (c := 1) (by omega) hloop
  obtain ⟨q, c, happ, -⟩ := (hgrow.1.shows (by omega)).append 8 1 0x301000 (a := 0x300000)
    (by rw [hgrow.2.1, hvmem]; rfl) (by decide) (by omega) (by decide)
    (fun h0 => absurd (rfl : (0 : Nat) = 0) h0)
  exact ⟨_, by rw [vmalloc_eight hvmem, bind_of_ok hloop]; exact happ⟩

theorem boot_tables (img : Image) {m : Mmu} (hoff : m.pagingOn = false) :
    ∃ s₁ s₂, bootInit img .start (State.boot m) = .ok () s₁ ∧ bootInit img .frames s₁ = .ok () s₂ ∧
      BootOk img ⟨s₂, .tables, []⟩ 0 ∧ s₂.vmem = ⟨kvmemStart, 0, 0⟩ := by
  obtain ⟨p, hr₁, hused⟩ := pmmInit_used (State.boot m)
  obtain ⟨t, hr₂, ht, -⟩ := pagingInit_off img (s := { State.boot m with pmm := p }) hoff
  exact ⟨_, _, hr₁, hr₂, bootOk_pagingInit hused rfl ht, rfl⟩

/-- **A command after `paging_init`**: its block and the heap keep to their frames. -/
theorem boot_backs_pages_tables :
    ∃ x tr y, BootStart x ∧ Trace (BootStep Image.readme) x tr ∧ Meets BootClean x tr ∧
      lastOf x tr = y ∧ y.phase = .done ∧ y.live = [⟨0x300014, 8, .tables⟩] ∧ BootBacked y := by
  obtain ⟨s₁, s₂, hr₁, hr₂, hok₂, hvmem⟩ := boot_tables Image.readme (m := Mmu.blank) (by decide)
  have hlist : ListIntact ⟨s₂, .tables, []⟩ := by
    refine ⟨[], ?_, by simp⟩
    rw [hvmem]
    exact .nil
  have hsize : s₂.vmem.vmemCurrent + 8 + 4122 < 2 ^ 32 := by
    rw [hvmem]
    decide
  obtain ⟨s₃, hr₃⟩ := hok₂.vmalloc_first hvmem
  obtain ⟨-, -, k, hok₃, -⟩ := hok₂.vmalloc hlist (by decide) hsize hr₃
  have hok₄ := hok₃.pagingEnable (s₃.mem.cr0 ||| 0x80000000) .paging
  obtain ⟨s₄, hs₄⟩ : ∃ s₄ : State Mmu, s₄ = { s₃ with
    mem := { s₃.mem with cr0 := s₃.mem.cr0 ||| 0x80000000 } } := ⟨_, rfl⟩
  have hr₄ : bootInit Image.readme .tables s₃ = .ok () s₄ := by
    rw [hs₄]
    exact pagingEnable_eq s₃
  rw [← hs₄] at hok₄
  obtain ⟨s₅, hr₅, -⟩ := hok₄.map.kheapInit (by have := hok₄.hi; omega)
  obtain ⟨tr, htr⟩ : ∃ tr : List (BootOp × BootSys), tr =
      [(.init, ⟨s₁, .frames, []⟩), (.init, ⟨s₂, .tables, []⟩),
        (.vmalloc 8, ⟨s₃, .tables, [⟨0x300014, 8, .tables⟩]⟩),
        (.init, ⟨s₄, .paging, [⟨0x300014, 8, .tables⟩]⟩),
        (.init, ⟨s₅, .done, [⟨0x300014, 8, .tables⟩]⟩)] := ⟨_, rfl⟩
  have hx : BootStart ⟨State.boot Mmu.blank, .start, []⟩ := ⟨_, by decide, rfl⟩
  have ht : Trace (BootStep Image.readme) ⟨State.boot Mmu.blank, .start, []⟩ tr := by
    rw [htr]
    exact ⟨⟨by simp, hr₁, rfl, rfl⟩, ⟨by simp, hr₂, rfl, rfl⟩,
      ⟨.inr (.inl rfl), by decide, rfl, _, hr₃, rfl⟩, ⟨by simp, hr₄, rfl, rfl⟩,
      ⟨by simp, hr₅, rfl, rfl⟩, trivial⟩
  have hc : Meets BootClean ⟨State.boot Mmu.blank, .start, []⟩ tr := by
    rw [htr]
    exact ⟨trivial, trivial, .inr ⟨by simp, hsize, .inl (by simp)⟩, trivial, trivial, trivial⟩
  refine ⟨_, tr, ⟨s₅, .done, [⟨0x300014, 8, .tables⟩]⟩, hx, ht, hc, by rw [htr]; rfl, rfl, rfl, ?_⟩
  exact boot_backs_pages hx ht hc (.init, ⟨s₅, .done, [⟨0x300014, 8, .tables⟩]⟩)
    (by rw [htr]; simp) rfl

/-! ## A command before `paging_init` -/

section Early

variable {s : State Mmu}

theorem ldTable_off (hoff : s.mem.pagingOn = false) {a : Nat} (ha : a + 4 ≤ 2 ^ 32) :
    ldTable a s = .ok (load32 s.mem.phys a) s :=
  loadAt_mmu (.inr rfl) ha fun _ _ => Mmu.translate_off hoff _ _

theorem stTable_off (hoff : s.mem.pagingOn = false) {a : Nat} (ha : a + 4 ≤ 2 ^ 32) (v : Nat) :
    stTable a v s = .ok () (s.setPhys (store32 s.mem.phys a v)) :=
  storeAt_mmu (.inr rfl) ha (fun _ _ => Mmu.translate_off hoff _ _) v

theorem st_off (hoff : s.mem.pagingOn = false) {a : Nat} (ha : a + 4 ≤ 2 ^ 32) (v : Nat) :
    st a v s = .ok () (s.setPhys (store32 s.mem.phys a v)) := by
  unfold st
  rw [Nat.mod_eq_of_lt (by omega)]
  exact storeAt_mmu (.inl rfl) ha (fun _ _ => Mmu.translate_off hoff _ _) v

theorem newPageTable_early (img : Image) (hoff : s.mem.pagingOn = false) {n : Nat}
    (hu : Used s.pmm (· < n)) (hn : n < 2304) :
    ∃ d, newPageTable img 0x300000 0 s = .ok () { s.setPhys d with pmm := s.pmm.take n } ∧
      pdeAt img d 0 = frameAddr n + 3 := by
  have hpd := img.pdHi
  obtain ⟨d, hclr, -, -⟩ := fill_spec (P := physTable) (a := frameAddr n) (n := 1024)
    (s := { s with pmm := s.pmm.take n }) (W := fun x => x < 2 ^ 32)
    (physTable_plain_off hoff fun x hx => hx) (fun _ => 0) (fun _ _ => by decide)
    fun x h1 h2 => by simp only [frameAddr, pmmStart, pageSize] at h2; omega
  have hpde : newPde (frameAddr n) 0x300000 = frameAddr n + 3 := by
    unfold newPde
    rw [if_neg (by decide), Nat.or_zero, Nat.or_assoc]
    exact or_flags _ _ (frameAddr_mod n) (by decide)
  refine ⟨store32 d (img.pageDirectory + 4 * 0) (frameAddr n + 3), ?_, load32_store32 ?_⟩
  · unfold newPageTable
    rw [bind_of_ok (hu.alloc_next hn).1]
    refine (bind_of_ok hclr).trans ?_
    rw [← hpde]
    exact stTable_off (s := { s.setPhys d with pmm := s.pmm.take n }) hoff (by omega) _
  · simp only [frameAddr, pmmStart, pageSize]
    omega

/-- The first page of the region before `paging_init`: one frame for the page, and one
for a table that `paging_init` will drop. -/
theorem mapFirst_early (hoff : s.mem.pagingOn = false) (hpd : pdeAt img s.mem.phys 0 = 0)
    (hu : Used s.pmm (· < 256)) :
    ∃ p d, vmallocMap img 0x300000 0x301000 s = .ok () { s.setPhys d with pmm := p } ∧
      Used p (· < 258) := by
  have hpdHi := img.pdHi
  have hidx : pdIndex 0x300000 = 0 := by decide
  obtain ⟨halloc, hu₁⟩ := hu.alloc_next (by omega)
  obtain ⟨s₁, hs₁⟩ : ∃ s₁ : State Mmu, s₁ = { s with pmm := s.pmm.take 256 } := ⟨_, rfl⟩
  rw [← hs₁] at halloc
  have hoff₁ : s₁.mem.pagingOn = false := by rw [hs₁]; exact hoff
  have hpd₁ : pdeAt img s₁.mem.phys 0 = 0 := by rw [hs₁]; exact hpd
  have hu₁ : Used s₁.pmm (· < 257) := by rw [hs₁]; exact hu₁
  obtain ⟨d, hnew, hpde⟩ := newPageTable_early img hoff₁ hu₁ (by omega)
  have habs : ¬ Present img s₁.mem.phys (pdIndex 0x300000) := by
    unfold Present
    rw [hidx, hpd₁]
    decide
  have hwalk : virtToPte img 0x300000 true s₁ =
      .ok (frameAddr 257 + 4 * ptIndex 0x300000) { s₁.setPhys d with pmm := s₁.pmm.take 257 } := by
    rw [virtToPte_create (by decide) (ldTable_off hoff₁ (by rw [hidx]; omega)) habs, hidx,
      bind_of_ok hnew]
    refine (bind_of_ok (ldTable_off (s := { s₁.setPhys d with pmm := s₁.pmm.take 257 }) hoff₁
      (by omega))).trans ?_
    show EStateM.Result.ok ((pdeAt img d 0 &&& 0xFFFFF000) + _) _ = _
    rw [hpde, show (frameAddr 257 + 3) &&& 0xFFFFF000 = frameAddr 257 by decide]
  have hmap := vmmMapPage_walk (frameAddr 256) pageWrite hwalk (by decide)
  rw [bind_of_ok
    (stTable_off (s := { s₁.setPhys d with pmm := s₁.pmm.take 257 }) hoff₁ (by decide) _)]
    at hmap
  refine ⟨s₁.pmm.take 257, store32 d (frameAddr 257 + 4 * ptIndex 0x300000)
    (mapEntry (frameAddr 256) pageWrite), ?_, (hu₁.alloc_next (by omega)).2⟩
  subst hs₁
  unfold vmallocMap
  rw [show (0x301000 - 0x300000 + (pageSize - 1)) / pageSize = 0 + 1 by decide, forUp, bind_assoc,
    bind_of_ok halloc]
  simp only [show pmmStart + 256 * pageSize ≠ 0 by simp, ↓reduceIte]
  rw [bind_assoc]
  exact (bind_of_ok hmap).trans rfl

/-- **A command before `paging_init`.** -/
theorem vmalloc_early (img : Image) (hoff : s.mem.pagingOn = false)
    (hpd : pdeAt img s.mem.phys 0 = 0)
    (hvmem : s.vmem = ⟨kvmemStart, 0, 0⟩) (hu : Used s.pmm (· < 256)) :
    ∃ s', vmalloc img 8 s = .ok 0x300014 s' ∧ s'.mem.pagingOn = false ∧ Used s'.pmm (· < 258) := by
  obtain ⟨p, d, hmap, hused⟩ := mapFirst_early hoff hpd hu
  obtain ⟨s₁, hs₁⟩ : ∃ s₁ : State Mmu, s₁ = { s.setPhys d with pmm := p } := ⟨_, rfl⟩
  rw [← hs₁] at hmap
  have hoff₁ : ∀ q, (s₁.setPhys q).mem.pagingOn = false := by
    intro q
    rw [hs₁]
    exact hoff
  have hst :
      ∀ q a v, a + 4 ≤ 2 ^ 32 → st a v (s₁.setPhys q) = .ok () (s₁.setPhys (store32 q a v)) :=
    fun q a v ha => st_off (hoff₁ q) ha v
  have happ : vmemAppend 8 0 1 0x301000 s₁ = .ok 0x300014 { s₁.setPhys
      (newHeader s₁.mem.phys 0x300000 8 (sub32 (1 * pageSize % 2 ^ 32) vmemHeader)) with
      vmem := ⟨0x301000, add32 s₁.vmem.vmemSize (1 * pageSize % 2 ^ 32), 0x300000⟩ } := by
    unfold vmemAppend
    rw [get_bind_apply, show s₁.vmem.vmemCurrent = 0x300000 by rw [hs₁]; exact congrArg _ hvmem]
    refine (bind_of_ok (hst s₁.mem.phys _ _ (by decide))).trans ?_
    refine (bind_of_ok (hst _ _ _ (by decide))).trans ?_
    refine (bind_of_ok (hst _ _ _ (by decide))).trans ?_
    refine (bind_of_ok (hst _ _ _ (by decide))).trans ?_
    refine (bind_of_ok (hst _ _ _ (by decide))).trans ?_
    rfl
  have hrun := (vmalloc_eight hvmem).trans ((bind_of_ok hmap).trans happ)
  refine ⟨_, hrun, hoff₁ _, ?_⟩
  show Used s₁.pmm _
  rw [hs₁]
  exact hused

end Early

/-- **`vmalloc(8)` before `paging_init`** leaves its block with the frame that `kheap_init`
gives to the heap page at `0x2FE000`. -/
theorem boot_shares_frame :
    ∃ x tr y, BootStart x ∧ Trace (BootStep Image.readme) x tr ∧ lastOf x tr = y ∧ y.phase = .done ∧
      y.live = [⟨0x300014, 8, .frames⟩] ∧ BootPage y 0x2FE000 ∧ BootPage y 0x300000 ∧
      (∀ w, y.st.mem.translate w 0x2FE000 = .ok 0x300000) ∧
      (∀ w, y.st.mem.translate w 0x300000 = .ok 0x300000) ∧ ¬ BootBacked y := by
  obtain ⟨p, hr₁, hused⟩ := pmmInit_used (State.boot Mmu.blank)
  obtain ⟨s₁, hs₁⟩ : ∃ s₁ : State Mmu, s₁ = { State.boot Mmu.blank with pmm := p } := ⟨_, rfl⟩
  rw [← hs₁] at hr₁
  obtain ⟨s₂, hr₂, hoff, hused₂⟩ := vmalloc_early Image.readme (s := s₁)
    (by rw [hs₁]; exact (by decide : Mmu.blank.pagingOn = false))
    (by rw [hs₁]; rfl) (by rw [hs₁]; rfl)
    (by rw [hs₁]; exact hused)
  obtain ⟨t, hr₃, ht, -⟩ := pagingInit_off Image.readme hoff
  have hmap := ht.mapped ((s₂.mem.cr0 ||| 1 <<< 16) ||| 0x80000000)
  have hr₄ := pagingEnable_eq { s₂ with
    mem := ⟨t, s₂.mem.cr0 ||| 1 <<< 16, Image.readme.pageDirectory⟩ }
  obtain ⟨s₄, hs₄⟩ : ∃ s₄ : State Mmu, s₄ = { s₂ with
    mem := ⟨t, (s₂.mem.cr0 ||| 1 <<< 16) ||| 0x80000000, Image.readme.pageDirectory⟩ } := ⟨_, rfl⟩
  have hmap₄ : BootMap Image.readme s₄ id 258 := by
    rw [hs₄]
    exact ⟨hmap, hused₂, by omega⟩
  have hon₄ : s₄.mem.pagingOn = true := by
    rw [hs₄]
    exact pagingEnable_on _
  obtain ⟨s₅, hr₅, hon₅, hmap₅⟩ := hmap₄.kheapInit (by omega)
  -- the heap's page and the block's page
  have hheap : ∀ w, s₅.mem.translate w 0x2FE000 = .ok 0x300000 := by
    intro w
    rw [hmap₅.map.translate (by decide) w, Mmu.place, hon₅, hon₄]
    rfl
  have hblock : ∀ w, s₅.mem.translate w 0x300000 = .ok 0x300000 := by
    intro w
    rw [hmap₅.map.translate (by decide) w, Mmu.place, hon₅, hon₄]
    rfl
  have hpage₁ : BootPage ⟨s₅, .done, [⟨0x300014, 8, .frames⟩]⟩ 0x2FE000 :=
    ⟨by decide, .inl ⟨by decide, by decide⟩⟩
  have hpage₂ : BootPage ⟨s₅, .done, [⟨0x300014, 8, .frames⟩]⟩ 0x300000 :=
    ⟨by decide, .inr ⟨_, List.mem_cons_self, by decide, by decide⟩⟩
  refine ⟨⟨State.boot Mmu.blank, .start, []⟩, [(.init, ⟨s₁, .frames, []⟩),
    (.vmalloc 8, ⟨s₂, .frames, [⟨0x300014, 8, .frames⟩]⟩),
    (.init, ⟨_, .tables, [⟨0x300014, 8, .frames⟩]⟩),
    (.init, ⟨s₄, .paging, [⟨0x300014, 8, .frames⟩]⟩),
    (.init, ⟨s₅, .done, [⟨0x300014, 8, .frames⟩]⟩)], _, ⟨_, by decide, rfl⟩,
    ⟨⟨by simp, hr₁, rfl, rfl⟩, ⟨.inl rfl, by decide, rfl, _, hr₂, rfl⟩, ⟨by simp, hr₃, rfl, rfl⟩,
      ⟨by simp, ?_, rfl, rfl⟩, ⟨by simp, hr₅, rfl, rfl⟩, trivial⟩,
        rfl, rfl, rfl, hpage₁, hpage₂, hheap,
    hblock, fun h => h.apart _ _ hpage₁ hpage₂ (by decide)
      ((hheap false).trans (hblock false).symm)⟩
  rw [hs₄]
  exact hr₄

end Kfs
