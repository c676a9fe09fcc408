import Kfs.MemoryInv

/-!
# Who owns which frame

`FrameInv img s e`: the pages of `[KHEAP_START, e)` are mapped to frames of
their own, none of them a page table, all marked in use, and a page count that
bounds `e`. Growing the region by one page keeps it (`FrameInv.grow`); so does
the page test, which maps a frame elsewhere, perhaps takes another one for a
table, and gives the first back.
-/

namespace Kfs

open Kfs.Lib

variable {img : Image}

/-- A page of the kernel heap or of the `vmalloc` region that ends at `e`. -/
def Backed (e v : Nat) : Prop := v % 4096 = 0 ∧ kheapStart ≤ v ∧ v < e

/-- **The frame invariant**, for a region that ends at `e`. -/
structure FrameInv (img : Image) (s : State Flat) (e : Nat) : Prop where
  paging : PagingInv img s
  lo : kvmemStart ≤ e
  page : e % 4096 = 0
  count : (e - kvmemStart) / 4096 + s.pmm.freePages ≤ 1792
  backed : ∀ v, Backed e v → ∃ k, entryAt img s.mem.table v = pmmStart + k * pageSize + 3 ∧
    256 ≤ k ∧ k < s.pmm.totalPages ∧ s.pmm.bit k = true
  inj : ∀ v w, Backed e v → Backed e w → entryAt img s.mem.table v =
    entryAt img s.mem.table w → v = w
  apart : ∀ v i, Backed e v → i < 1024 → Present img s.mem.table i →
    entryAt img s.mem.table v ≠ tableOf img s.mem.table i + 3

theorem FrameInv.hi {s : State Flat} {e : Nat} (h : FrameInv img s e) : e ≤ 0xA00000 := by
  have := h.count
  have := h.lo
  have := h.page
  simp only [kvmemStart] at *
  omega

theorem Booted.frameInv {s : State Flat} (h : Booted img s) : FrameInv img s kvmemStart where
  paging := h.paging
  lo := Nat.le_refl _
  page := by decide
  count := by
    rw [h.frames.free h.paging.pmm]
    omega
  backed v hv := by
    obtain ⟨h1, h2, h3⟩ := hv
    simp only [kheapStart, kvmemStart] at h2 h3
    refine ⟨(v - 0x100000) / 4096, ?_, by omega, by rw [h.frames.total]; omega, ?_⟩
    · rw [h.identity v (by omega), if_pos (by omega)]
      simp only [pmmStart, pageSize]
      omega
    · rw [h.frames.bits]
      exact decide_eq_true (by omega)
  inj v w hv hw he := by
    obtain ⟨h1, h2, h3⟩ := hv
    obtain ⟨h4, h5, h6⟩ := hw
    simp only [kheapStart, kvmemStart] at *
    rw [h.identity v (by omega), h.identity w (by omega), if_pos (by omega),
      if_pos (by omega)] at he
    omega
  apart v i hv hi hp := by
    have hi3 := (h.tables i hi).mp hp
    obtain ⟨h1, h2, h3⟩ := hv
    simp only [kheapStart, kvmemStart] at *
    have := img.ptHi
    rw [h.identity v (by omega), if_pos (by omega)]
    cases h.paging.own i hi hp with
    | static _ hT => omega
    | frame k h3 => omega

section Frame

variable {s : State Flat} {e k : Nat}

theorem FrameInv.ne_backed (h : FrameInv img s e) (hb : s.pmm.bit k = false) {v : Nat}
    (hv : Backed e v) : entryAt img s.mem.table v ≠ pmmStart + k * pageSize + 3 := by
  obtain ⟨k', he, -, -, hb'⟩ := h.backed v hv
  rw [he]
  intro heq
  have : k' = k := by simp only [pageSize] at heq; omega
  rw [this, hb] at hb'
  cases hb'

theorem FrameInv.ne_table (h : FrameInv img s e) (hb : s.pmm.bit k = false)
    {i : Nat} (hi : i < 1024)
    (hp : Present img s.mem.table i) : tableOf img s.mem.table i ≠ pmmStart + k * pageSize := by
  have hk : 256 ≤ k := by
    by_contra hlt
    rw [h.paging.reserved k (by omega)] at hb
    cases hb
  exact (h.paging.own i hi hp).ne_free hk hb

theorem FrameInv.ge_reserved (h : FrameInv img s e) (hb : s.pmm.bit k = false) : 256 ≤ k := by
  by_contra hlt
  rw [h.paging.reserved k (by omega)] at hb
  cases hb

/-- **Growing the region** by one freshly mapped page. -/
theorem FrameInv.grow {s' : State Flat} {t : Mem} (h : FrameInv img s e)
    (hm : MapsFresh img e s s' k t) : FrameInv img s' (e + 4096) := by
  have hlo := h.lo
  have hpage := h.page
  have hhi := h.hi
  have hpos := h.paging.pmm.freePages_pos hm.lt hm.clear
  simp only [kvmemStart] at hlo
  -- the entries of the old pages are as before, that of the new page names frame `k`
  have hold : ∀ v, Backed e v → entryAt img t v = entryAt img s.mem.table v := by
    rintro v ⟨h1, h2, h3⟩
    rw [hm.upd v (by omega), if_neg (by omega)]
  have hnew : entryAt img t e = pmmStart + k * pageSize + 3 := by
    rw [hm.upd e (by omega), if_pos rfl]
  have hsplit : ∀ v, Backed (e + 4096) v → Backed e v ∨ v = e := by
    rintro v ⟨h1, h2, h3⟩
    by_cases hve : v < e
    · exact .inl ⟨h1, h2, hve⟩
    · exact .inr (by omega)
  have hpres : ∀ i, i < 1024 → (Present img t i ↔ Present img s.mem.table i) :=
    fun i hi => present_congr (hm.pde i hi)
  have hbit : ∀ j, (s.pmm.take k).bit j = if j = k then true else s.pmm.bit j :=
    fun j => s.pmm.bit_take j (h.paging.pmm.lt_bits hm.lt)
  refine ⟨hm.inv, by simp only [kvmemStart]; omega, by omega, ?_, fun v hv => ?_,
    fun v w hv hw hvw => ?_, fun v i hv hi hp => ?_⟩
  · have hcount := h.count
    have hfree : s'.pmm.freePages = s.pmm.freePages - 1 := by
      rw [hm.eq]
      rfl
    have hstart : kvmemStart = 0x300000 := rfl
    omega
  · rw [hm.eq]
    show ∃ j, entryAt img t v = _ ∧ 256 ≤ j ∧ j < (s.pmm.take k).totalPages ∧
      (s.pmm.take k).bit j = true
    rcases hsplit v hv with hv | rfl
    · obtain ⟨j, h1, h2, h3, h4⟩ := h.backed v hv
      refine ⟨j, by rw [hold v hv, h1], h2, by simpa using h3, ?_⟩
      rw [hbit, h4, ite_self]
    · exact ⟨k, hnew, h.ge_reserved hm.clear, by simpa using hm.lt, by rw [hbit, if_pos rfl]⟩
  · rw [hm.eq] at hvw
    have hvw : entryAt img t v = entryAt img t w := hvw
    rcases hsplit v hv with hv | rfl <;> rcases hsplit w hw with hw | rfl
    · rw [hold v hv, hold w hw] at hvw
      exact h.inj v w hv hw hvw
    · rw [hold v hv, hnew] at hvw
      exact absurd hvw (h.ne_backed hm.clear hv)
    · rw [hold w hw, hnew] at hvw
      exact absurd hvw.symm (h.ne_backed hm.clear hw)
    · rfl
  · rw [hm.eq] at hp ⊢
    have hp : Present img t i := hp
    show entryAt img t v ≠ tableOf img t i + 3
    rw [tableOf_congr (hm.pde i hi)]
    have hp' := (hpres i hi).mp hp
    rcases hsplit v hv with hv | rfl
    · rw [hold v hv]
      exact h.apart v i hv hi hp'
    · rw [hnew]
      have := h.ne_table hm.clear hi hp'
      omega

end Frame

/-! ## Expanding the region -/

/-- The invariants read the frame allocator and the tables only. -/
theorem PagingInv.congr {s s' : State Flat} (h : PagingInv img s) (hp : s'.pmm = s.pmm)
    (ht : s'.mem.table = s.mem.table) : PagingInv img s' := by
  obtain ⟨h1, h2, h3, h4, h5⟩ := h
  refine ⟨?_, ?_, ?_, ?_, ?_⟩ <;> simp only [hp, ht] <;> assumption

theorem FrameInv.congr {s s' : State Flat} {e : Nat} (h : FrameInv img s e) (hp : s'.pmm = s.pmm)
    (ht : s'.mem.table = s.mem.table) : FrameInv img s' e := by
  obtain ⟨h1, h2, h3, h4, h5, h6, h7⟩ := h
  refine ⟨h1.congr hp ht, h2, h3, ?_, ?_, ?_, ?_⟩ <;> simp only [hp, ht] <;> assumption

/-- The entries of the pages outside `[lo, hi)` are as before. -/
def SameOutside (img : Image) (lo hi : Nat) (s s' : State Flat) : Prop :=
  ∀ v, v < 2 ^ 32 → v < lo ∨ hi ≤ v → entryAt img s'.mem.table v = entryAt img s.mem.table v

theorem SameOutside.trans {s t u : State Flat} {a b c : Nat} (h : SameOutside img a b s t)
    (h' : SameOutside img b c t u) (hab : a ≤ b) (hbc : b ≤ c) : SameOutside img a c s u := by
  intro v hv hout
  rw [h' v hv (by omega), h v hv (by omega)]

theorem MapsFresh.outside {s s' : State Flat} {v k : Nat} {t : Mem} (hm : MapsFresh img v s s' k t)
    (hv : v % 4096 = 0) : SameOutside img v (v + 4096) s s' := by
  intro w hw hout
  rw [hm.eq]
  show entryAt img t w = _
  rw [hm.upd w hw, if_neg (by omega)]

theorem vmallocMap_frames {s s' : State Flat} {b e k : Nat} (h : FrameInv img s b)
    (he : e = b + k * 4096) (hlim : e ≤ 0xC00000) (hr : vmallocMap img b e s = .ok () s') :
    FrameInv img s' e ∧ OnlyTables s s' ∧ SameOutside img b e s s' := by
  have hcount : (e - b + (pageSize - 1)) / pageSize = k := by
    simp only [pageSize]
    omega
  unfold vmallocMap at hr
  rw [hcount] at hr
  have := forUp_inv (fun i t => FrameInv img t (b + i * 4096) ∧ OnlyTables s t ∧
    SameOutside img b (b + i * 4096) s t) hr
    ⟨by simpa using h, onlyTables_frame.refl s, fun _ _ _ => rfl⟩ ?_
  · rw [he]
    simpa using this
  rintro i t t' - hi ⟨ht, hot, hout⟩ hb
  have hva : b + i * pageSize < 0xC00000 := by
    simp only [pageSize]
    omega
  rcases backPage_spec ht.paging hva (kpanicFatal "vmalloc: failed to allocate physical page\n" [])
    (kpanicFatal "vmalloc: failed to map page\n" []) with ⟨j, tb, t₁, hm, he⟩ | ⟨-, he⟩
  · rw [he] at hb
    cases hb
    rw [show b + (i + 1) * 4096 = b + i * 4096 + 4096 by omega]
    exact ⟨ht.grow hm, onlyTables_frame.trans hot ⟨_, tb, hm.eq⟩,
      hout.trans (hm.outside ht.page) (by omega) (by omega)⟩
  · rw [he] at hb
    cases hb

/-- `s'` is `s` with a region that may have grown, data and list as before. -/
structure Grown (img : Image) (s s' : State Flat) : Prop where
  frames : FrameInv img s' s'.vmem.vmemCurrent
  data : s'.mem.data = s.mem.data
  kheap : s'.kheap = s.kheap
  list : s'.vmem.vmemList = s.vmem.vmemList
  le : s.vmem.vmemCurrent ≤ s'.vmem.vmemCurrent

theorem Grown.trans {s t u : State Flat} (h : Grown img s t) (h' : Grown img t u) :
    Grown img s u :=
  ⟨h'.frames, h'.data.trans h.data, h'.kheap.trans h.kheap, h'.list.trans h.list, h.le.trans h'.le⟩

theorem vbrkStep_cases {s s' : State Flat} {a : Nat} {r : Unit ⊕ Unit}
    (h : FrameInv img s s.vmem.vmemCurrent) (hr : vbrkStep img a () s = .ok r s') :
    (a ≤ s.vmem.vmemCurrent ∧ r = .inr () ∧ s' = s) ∨
    (s.vmem.vmemCurrent < a ∧ r = .inl () ∧ Grown img s s' ∧
      s'.vmem.vmemCurrent = s.vmem.vmemCurrent + 4096 ∧
      SameOutside img s.vmem.vmemCurrent s'.vmem.vmemCurrent s s') := by
  have hhi := h.hi
  unfold vbrkStep at hr
  rw [get_bind_apply] at hr
  split at hr
  swap
  · cases hr
    exact .inl ⟨by omega, rfl, rfl⟩
  rcases mapFresh_spec h.paging (v := s.vmem.vmemCurrent) (by omega) with
    ⟨k, t, s₁, hm, h1, h2⟩ | ⟨-, h1⟩
  · rw [bind_of_ok h1, bind_of_ok h2] at hr
    have hs₁ := hm.eq
    have hv₁ : s₁.vmem = s.vmem := by rw [hs₁]; rfl
    have hnext : add32 s₁.vmem.vmemCurrent pageSize = s.vmem.vmemCurrent + 4096 := by
      rw [hv₁]
      simp only [add32, pageSize]
      omega
    have hr : EStateM.Result.ok (.inl ()) { s₁ with vmem := { s₁.vmem with
        vmemCurrent := add32 s₁.vmem.vmemCurrent pageSize
        vmemSize := add32 s₁.vmem.vmemSize pageSize } } = .ok r s' := hr
    injection hr with hr' hr
    subst hr hr'
    refine .inr
      ⟨by omega, rfl, ⟨?_, by rw [hs₁]; rfl, by rw [hs₁]; rfl, by rw [hs₁]; rfl, ?_⟩, hnext,
      ?_⟩
    · show FrameInv img _ (add32 s₁.vmem.vmemCurrent pageSize)
      rw [hnext]
      exact (h.grow hm).congr rfl rfl
    · show s.vmem.vmemCurrent ≤ add32 s₁.vmem.vmemCurrent pageSize
      omega
    · show SameOutside img _ (add32 s₁.vmem.vmemCurrent pageSize) _ _
      rw [hnext]
      exact hm.outside h.page
  · rw [bind_of_error h1] at hr
    cases hr

/-- **`vbrk`** refuses its argument, or moves the end of the region up to it and backs
what it adds. -/
theorem vbrk_spec {s s' : State Flat} {a r : Nat} (h : FrameInv img s s.vmem.vmemCurrent)
    (hr : vbrk img a s = .ok r s') :
    ((a = 0 ∨ a < kvmemStart ∨ a < s.vmem.vmemCurrent) ∧ s' = s) ∨
    (s.vmem.vmemCurrent ≤ a ∧ a ≤ s'.vmem.vmemCurrent ∧ s'.vmem.vmemCurrent < a + 4096 ∧
      Grown img s s' ∧ SameOutside img s.vmem.vmemCurrent s'.vmem.vmemCurrent s s') := by
  unfold vbrk at hr
  split at hr
  · cases hr
    exact .inl ⟨.inl ‹_›, rfl⟩
  rw [get_bind_apply] at hr
  split at hr
  · cases hr
    rename_i hlow
    simp only [Bool.or_eq_true, decide_eq_true_eq] at hlow
    exact .inl ⟨.inr hlow, rfl⟩
  rename_i hlow
  simp only [Bool.or_eq_true, decide_eq_true_eq] at hlow
  obtain ⟨_, s₁, hloop, hr⟩ := bind_eq_ok.mp hr
  cases hr
  have hsteps := iterate_inv
    (fun _ t => t.vmem.vmemCurrent < a + 4096 ∧ Grown img s t ∧
      SameOutside img s.vmem.vmemCurrent t.vmem.vmemCurrent s t)
    (fun _ t => a ≤ t.vmem.vmemCurrent ∧ t.vmem.vmemCurrent < a + 4096 ∧ Grown img s t ∧
      SameOutside img s.vmem.vmemCurrent t.vmem.vmemCurrent s t)
    ?_ ?_ hloop ⟨by omega, ⟨h, rfl, rfl, rfl, Nat.le_refl _⟩, fun _ _ _ => rfl⟩
  · exact .inr ⟨by omega, hsteps⟩
  · rintro _ t _ t' ⟨hlt, hg, hout⟩ hs
    obtain ⟨-, hr, -⟩ | ⟨hlt', -, hg', hcur, hout'⟩ := vbrkStep_cases hg.frames hs
    · cases hr
    · exact ⟨by omega, hg.trans hg', hout.trans hout' hg.le hg'.le⟩
  · rintro _ t _ t' ⟨hlt, hg, hout⟩ hs
    obtain ⟨hle, -, rfl⟩ | ⟨-, hr, -⟩ := vbrkStep_cases hg.frames hs
    · exact ⟨hle, hlt, hg, hout⟩
    · cases hr

/-- `vbrk` only moves the end of the region. -/
theorem vbrk_frames {s s' : State Flat} {a r : Nat} (h : FrameInv img s s.vmem.vmemCurrent)
    (hr : vbrk img a s = .ok r s') : Grown img s s' := by
  obtain ⟨-, rfl⟩ | ⟨-, -, -, hg, -⟩ := vbrk_spec h hr
  · exact ⟨h, rfl, rfl, rfl, Nat.le_refl _⟩
  · exact hg

/-! ## The page test -/

/-- A state whose tables and bitmap only gained: every old entry and every used bit
is kept, and a table that is new took a frame that was free. -/
theorem FrameInv.transfer {s s' : State Flat} {e : Nat} (h : FrameInv img s e)
    (hp : PagingInv img s') (htot : s'.pmm.totalPages = s.pmm.totalPages)
    (hfree : s'.pmm.freePages ≤ s.pmm.freePages)
    (hbit : ∀ j, s.pmm.bit j = true → s'.pmm.bit j = true)
    (hent : ∀ v, Backed e v → entryAt img s'.mem.table v = entryAt img s.mem.table v)
    (htab : ∀ i, i < 1024 → Present img s'.mem.table i →
      (Present img s.mem.table i ∧ tableOf img s'.mem.table i = tableOf img s.mem.table i) ∨
      ∃ k, s.pmm.bit k = false ∧ tableOf img s'.mem.table i = pmmStart + k * pageSize) :
    FrameInv img s' e where
  paging := hp
  lo := h.lo
  page := h.page
  count := by
    have := h.count
    omega
  backed v hv := by
    obtain ⟨k, h1, h2, h3, h4⟩ := h.backed v hv
    exact ⟨k, (hent v hv).trans h1, h2, htot ▸ h3, hbit k h4⟩
  inj v w hv hw hvw := by
    rw [hent v hv, hent w hw] at hvw
    exact h.inj v w hv hw hvw
  apart v i hv hi hpi := by
    rw [hent v hv]
    rcases htab i hi hpi with ⟨hpi', ht⟩ | ⟨k, hk, ht⟩
    · rw [ht]
      exact h.apart v i hv hi hpi'
    · rw [ht]
      exact h.ne_backed hk hv

theorem FrameInv.take {s : State Flat} {e k : Nat} (h : FrameInv img s e)
    (hk : k < s.pmm.totalPages) (hb : s.pmm.bit k = false) :
    FrameInv img { s with pmm := s.pmm.take k } e := by
  refine h.transfer (h.paging.take hk hb) (by simp) ?_ (fun j hj => ?_) (fun _ _ => rfl)
    fun i hi hp => .inl ⟨hp, rfl⟩
  · show s.pmm.freePages - 1 ≤ _
    omega
  · show (s.pmm.take k).bit j = true
    rw [s.pmm.bit_take j (h.paging.pmm.lt_bits hk), hj, ite_self]

theorem FrameInv.give {s : State Flat} {e k : Nat} (h : FrameInv img s e)
    (hk : k < s.pmm.totalPages) (hb : s.pmm.bit k = true) (hk256 : 256 ≤ k)
    (hcount : (e - kvmemStart) / 4096 + (s.pmm.freePages + 1) ≤ 1792)
    (hback : ∀ v, Backed e v → entryAt img s.mem.table v ≠ pmmStart + k * pageSize + 3)
    (htab : ∀ i, i < 1024 → Present img s.mem.table i →
      tableOf img s.mem.table i ≠ pmmStart + k * pageSize) :
    FrameInv img { s with pmm := s.pmm.give k } e where
  paging := h.paging.give hk hb hk256 htab
  lo := h.lo
  page := h.page
  count := hcount
  backed v hv := by
    obtain ⟨j, h1, h2, h3, h4⟩ := h.backed v hv
    refine ⟨j, h1, h2, by simpa using h3, ?_⟩
    show (s.pmm.give k).bit j = true
    rw [s.pmm.bit_give j (h.paging.pmm.lt_bits hk), if_neg, h4]
    rintro rfl
    exact hback v hv h1
  inj := h.inj
  apart := h.apart

/-- Where the page test maps its frame. -/
@[simp] def testPage : Nat := 0x10000000

/-- What mapping the test page leaves: the frames of the region, and frame `k`, which
was just taken, still in use and nobody's. -/
structure TestMapped (img : Image) (s : State Flat) (e k : Nat) : Prop where
  frames : FrameInv img s e
  lt : k < s.pmm.totalPages
  used : s.pmm.bit k = true
  ge : 256 ≤ k
  back : ∀ v, Backed e v → entryAt img s.mem.table v ≠ pmmStart + k * pageSize + 3
  table : ∀ i, i < 1024 → Present img s.mem.table i →
    tableOf img s.mem.table i ≠ pmmStart + k * pageSize
  count : (e - kvmemStart) / 4096 + (s.pmm.freePages + 1) ≤ 1792

theorem FrameInv.testMapped {s : State Flat} {e k : Nat} (h : FrameInv img s e)
    (hk : k < s.pmm.totalPages) (hb : s.pmm.bit k = false) :
    TestMapped img { s with pmm := s.pmm.take k } e k where
  frames := h.take hk hb
  lt := by simpa using hk
  used := by
    show (s.pmm.take k).bit k = true
    rw [s.pmm.bit_take k (h.paging.pmm.lt_bits hk), if_pos rfl]
  ge := h.ge_reserved hb
  back v hv := h.ne_backed hb hv
  table i hi hp := h.ne_table hb hi hp
  count := by
    have := h.count
    have := h.paging.pmm.freePages_pos hk hb
    show _ / _ + (s.pmm.freePages - 1 + 1) ≤ _
    omega

theorem Updates.backed {t t' : Mem} {e x : Nat} (hu : Updates img t t' testPage x)
    (he : e ≤ 0xA00000) : ∀ v, Backed e v → entryAt img t' v = entryAt img t v := by
  rintro v ⟨h1, h2, h3⟩
  rw [hu v (by omega), if_neg]
  simp only [testPage]
  omega

/-- Mapping the test page keeps frame `k` apart, even when it takes a table. -/
theorem TestMapped.map {s s' : State Flat} {e k phys flags : Nat} {r : Int}
    (h : TestMapped img s e k) (hr : vmmMapPage img testPage phys flags s = .ok r s') :
    r = 0 ∧ TestMapped img s' e k ∧ s'.vmem = s.vmem := by
  have hhi := h.frames.hi
  have hpmm := h.frames.paging.pmm
  rcases vmmMapPage_spec h.frames.paging phys flags (v := testPage) (by decide) with
    ⟨-, t, he, hinv, hpde, hupd⟩ | ⟨hnp, j, t, hj, hbj, -, he, hinv, hpres, htab, hpde, hupd⟩ |
    ⟨-, -, he⟩
  · rw [he] at hr
    cases hr
    have hent := hupd.backed hhi
    refine ⟨rfl, ⟨?_, h.lt, h.used, h.ge, fun v hv => ?_, fun i hi hp => ?_, h.count⟩, rfl⟩
    · exact h.frames.transfer hinv rfl (Nat.le_refl _) (fun _ hj => hj) hent
        fun i hi hp => .inl ⟨(present_congr (hpde i hi)).mp hp, tableOf_congr (hpde i hi)⟩
    · exact (hent v hv).symm ▸ h.back v hv
    · exact (tableOf_congr (hpde i hi)).symm ▸ h.table i hi ((present_congr (hpde i hi)).mp hp)
  · rw [he] at hr
    cases hr
    have hent := hupd.backed hhi
    have hjk : j ≠ k := by
      rintro rfl
      rw [h.used] at hbj
      cases hbj
    have hbit : ∀ i, s.pmm.bit i = true → (s.pmm.take j).bit i = true := by
      intro i hi
      rw [s.pmm.bit_take i (hpmm.lt_bits hj), hi, ite_self]
    have hfree : (s.pmm.take j).freePages ≤ s.pmm.freePages := Nat.sub_le _ _
    have hslot : ∀ i, i < 1024 → Present img t i →
        (Present img s.mem.table i ∧ tableOf img t i = tableOf img s.mem.table i) ∨
        tableOf img t i = pmmStart + j * pageSize := by
      intro i hi hp
      by_cases hne : i = pdIndex testPage
      · rw [hne]
        exact .inr htab
      · exact .inl ⟨(present_congr (hpde i hi hne)).mp hp, tableOf_congr (hpde i hi hne)⟩
    refine ⟨rfl, ⟨?_, by simpa using h.lt, hbit k h.used, h.ge, fun v hv => ?_, fun i hi hp => ?_,
      ?_⟩, rfl⟩
    · refine h.frames.transfer hinv (by simp) hfree hbit hent fun i hi hp => ?_
      exact (hslot i hi hp).imp id fun ht => ⟨j, hbj, ht⟩
    · exact (hent v hv).symm ▸ h.back v hv
    · rcases hslot i hi hp with ⟨hp', ht⟩ | ht
      · exact ht.symm ▸ h.table i hi hp'
      · refine ht.symm ▸ fun heq => hjk ?_
        simp only [pageSize] at heq
        omega
    · have := h.count
      show _ / _ + ((s.pmm.take j).freePages + 1) ≤ _
      omega
  · rw [he] at hr
    cases hr

theorem TestMapped.unmap {s s' : State Flat} {e k : Nat} {u : Unit} (h : TestMapped img s e k)
    (hr : vmmUnmapPage img testPage s = .ok u s') :
    TestMapped img s' e k ∧ s'.vmem = s.vmem := by
  obtain ⟨t, he, hinv, hpde, hupd⟩ := vmmUnmapPage_spec h.frames.paging (v := testPage) (by decide)
  rw [he] at hr
  cases hr
  have hent := hupd.backed h.frames.hi
  refine ⟨⟨?_, h.lt, h.used, h.ge, fun v hv => ?_, fun i hi hp => ?_, h.count⟩, rfl⟩
  · exact h.frames.transfer hinv rfl (Nat.le_refl _) (fun _ hj => hj) hent
      fun i hi hp => .inl ⟨(present_congr (hpde i hi)).mp hp, tableOf_congr (hpde i hi)⟩
  · exact (hent v hv).symm ▸ h.back v hv
  · exact (tableOf_congr (hpde i hi)).symm ▸ h.table i hi ((present_congr (hpde i hi)).mp hp)

theorem TestMapped.setData {s : State Flat} {e k : Nat} (h : TestMapped img s e k) (d : Mem) :
    TestMapped img (s.setData d) e k where
  frames := h.frames.congr rfl rfl
  lt := h.lt
  used := h.used
  ge := h.ge
  back := h.back
  table := h.table
  count := h.count

theorem TestMapped.free {s s' : State Flat} {e k : Nat} {u : Unit} (h : TestMapped img s e k)
    (hr : pmmFreePage (pmmStart + k * pageSize) s = .ok u s') :
    FrameInv img s' e ∧ s'.vmem = s.vmem := by
  rw [pmmFreePage_used h.frames.paging.pmm h.lt h.used] at hr
  cases hr
  exact ⟨h.frames.give h.lt h.used h.ge h.count h.back h.table, rfl⟩

/-- **The page test** keeps the frame invariant. -/
theorem cmdPageOps_frames {s s' : State Flat} {e : Nat} {r : Option PageOps}
    (h : FrameInv img s e) (hr : cmdPageOps img s = .ok r s') :
    FrameInv img s' e ∧ s'.vmem = s.vmem := by
  unfold cmdPageOps at hr
  obtain ⟨phys, s₁, halloc, hr⟩ := bind_eq_ok.mp hr
  obtain ⟨k, hk, hb, -, rfl, rfl⟩ := pmmAllocPage_ok h.paging.pmm halloc
  have h₁ := h.testMapped hk hb
  simp only [show pmmStart + k * pageSize ≠ 0 by simp, ↓reduceIte] at hr
  obtain ⟨x, s₂, hmap, hr⟩ := bind_eq_ok.mp hr
  obtain ⟨rfl, h₂, hv₂⟩ := h₁.map hmap
  simp only [ne_eq, not_true_eq_false, ↓reduceIte] at hr
  -- the write and the read at the test page go to data memory
  rw [bind_of_ok (st_flat (by decide) _ _), bind_of_ok (ld_flat (by decide) _)] at hr
  have h₃ := h₂.setData (store32 s₂.mem.data 0x10000000 0x12345678)
  rw [bind_of_ok (vmmGetMapping_spec h₃.frames.paging (by decide))] at hr
  obtain ⟨_, s₄, hunmap, hr⟩ := bind_eq_ok.mp hr
  obtain ⟨h₄, hv₄⟩ := h₃.unmap hunmap
  rw [bind_of_ok (vmmGetMapping_spec h₄.frames.paging (by decide))] at hr
  obtain ⟨_, s₅, hfree, hr⟩ := bind_eq_ok.mp hr
  obtain ⟨h₅, hv₅⟩ := h₄.free hfree
  cases hr
  exact ⟨h₅, hv₅.trans (hv₄.trans hv₂)⟩

end Kfs
