import Kfs.Memory
import Kfs.KHeapInv
import Kfs.PagingRun

/-!
# Frames behind pages

`kheap_init`, `vmalloc` and `vbrk` back a page in the same way: they take a
frame and map it. `MapsFresh` is what that does, for pages below 12 MB, whose
tables are the static ones. `memoryInit_spec` runs the whole start-up: the
frames come in address order, so the kernel heap ends up mapped to itself.
-/

namespace Kfs

open Kfs.Lib

variable {img : Image}

/-! ## Taking and giving back a frame -/

theorem PagingInv.take {s : State Flat} (h : PagingInv img s) {k : Nat} (hk : k < s.pmm.totalPages)
    (hb : s.pmm.bit k = false) : PagingInv img { s with pmm := s.pmm.take k } where
  pmm := h.pmm.take hk hb
  reserved i hi := by
    show (s.pmm.take k).bit i = true
    rw [s.pmm.bit_take i (h.pmm.lt_bits hk), h.reserved i hi, ite_self]
  low := h.low
  own i hi hp := by
    cases h.own i hi hp with
    | static h1 h2 => exact .static h1 h2
    | frame k' h1 h2 h3 h4 h5 =>
      refine .frame k' h1 h2 (by simpa using h3) ?_ h5
      show (s.pmm.take k).bit k' = true
      rw [s.pmm.bit_take k' (h.pmm.lt_bits hk), h4, ite_self]
  inj := h.inj

theorem PagingInv.give {s : State Flat} (h : PagingInv img s) {k : Nat} (hk : k < s.pmm.totalPages)
    (hb : s.pmm.bit k = true) (hk256 : 256 ≤ k)
    (hfree : ∀ i, i < 1024 → Present img s.mem.table i →
      tableOf img s.mem.table i ≠ pmmStart + k * pageSize) :
    PagingInv img { s with pmm := s.pmm.give k } where
  pmm := h.pmm.give hk hb
  reserved i hi := by
    show (s.pmm.give k).bit i = true
    rw [s.pmm.bit_give i (h.pmm.lt_bits hk), if_neg (by omega), h.reserved i hi]
  low := h.low
  own i hi hp := by
    have hne := hfree i hi hp
    cases h.own i hi hp with
    | static h1 h2 => exact .static h1 h2
    | frame k' h1 h2 h3 h4 h5 =>
      refine .frame k' h1 h2 (by simpa using h3) ?_ h5
      show (s.pmm.give k).bit k' = true
      rw [s.pmm.bit_give k' (h.pmm.lt_bits hk), if_neg (by rintro rfl; exact hne h5), h4]
  inj := h.inj

/-! ## Backing a page -/

theorem mapEntry_frame {a : Nat} (ha : a % 4096 = 0) (hlt : a < 2 ^ 32) :
    mapEntry a pageWrite = a + 3 := by
  unfold mapEntry
  rw [and_maskPage a hlt, ha, Nat.sub_zero, Nat.or_assoc]
  exact or_flags a _ ha (by decide)

/-- `s'` is `s` after the lowest free frame `k` was mapped at `va`. -/
structure MapsFresh (img : Image) (va : Nat) (s s' : State Flat) (k : Nat) (t : Mem) : Prop where
  lt : k < s.pmm.totalPages
  clear : s.pmm.bit k = false
  least : ∀ j, j < k → s.pmm.bit j = true
  eq : s' = { s.setTable t with pmm := s.pmm.take k }
  inv : PagingInv img s'
  pde : ∀ i, i < 1024 → pdeAt img t i = pdeAt img s.mem.table i
  upd : Updates img s.mem.table t va (pmmStart + k * pageSize + 3)

/-- **Backing a page** below 12 MB: the two calls, or a panic when no frame is left. -/
theorem mapFresh_spec {s : State Flat} (h : PagingInv img s) {v : Nat} (hv : v < 0xC00000) :
    (∃ k t s', MapsFresh img v s s' k t ∧
      pmmAllocPage s = .ok (pmmStart + k * pageSize) { s with pmm := s.pmm.take k } ∧
      vmmMapPage img v (pmmStart + k * pageSize) pageWrite { s with pmm := s.pmm.take k } =
        .ok 0 s') ∨
    ((∀ j, j < s.pmm.totalPages → s.pmm.bit j = true) ∧
      pmmAllocPage s = .error (.panic "PMM out of memory\n" []) s) := by
  rcases pmmAllocPage_spec h.pmm with ⟨k, hk, hb, hmin, hr⟩ | ⟨hall, hr⟩
  swap
  · exact .inr ⟨hall, hr⟩
  left
  have htot := h.pmm.total
  have hpres : Present img s.mem.table (pdIndex v) := h.low _ (by unfold pdIndex; omega)
  have hframe : mapEntry (pmmStart + k * pageSize) pageWrite = pmmStart + k * pageSize + 3 := by
    refine mapEntry_frame ?_ ?_ <;> simp only [pmmStart, pageSize] <;> omega
  rcases vmmMapPage_spec (h.take hk hb) (pmmStart + k * pageSize) pageWrite (v := v) (by omega) with
    ⟨-, t, he, hinv, hpde, hupd⟩ | ⟨habs, -⟩ | ⟨habs, -⟩
  · rw [hframe] at hupd
    exact ⟨k, t, _, ⟨hk, hb, hmin, rfl, hinv, hpde, hupd⟩, hr, he⟩
  · exact absurd hpres habs
  · exact absurd hpres habs

theorem backPage_spec {s : State Flat} (h : PagingInv img s) {va : Nat} (hva : va < 0xC00000)
    (noFrame noMap : K Flat Unit) :
    (∃ k t s', MapsFresh img va s s' k t ∧ (do
        let phys ← pmmAllocPage
        if phys = 0 then
          noFrame
        if (← vmmMapPage img va phys pageWrite) ≠ 0 then
          noMap : K Flat Unit) s = .ok () s') ∨
    ((∀ j, j < s.pmm.totalPages → s.pmm.bit j = true) ∧ (do
        let phys ← pmmAllocPage
        if phys = 0 then
          noFrame
        if (← vmmMapPage img va phys pageWrite) ≠ 0 then
          noMap : K Flat Unit) s = .error (.panic "PMM out of memory\n" []) s) := by
  rcases mapFresh_spec h hva with ⟨k, t, s', hm, h1, h2⟩ | ⟨hall, h1⟩
  · refine .inl ⟨k, t, s', hm, ?_⟩
    have hne : pmmStart + k * pageSize ≠ 0 := by simp
    rw [bind_of_ok h1]
    simp only [hne, ↓reduceIte]
    rw [bind_of_ok h2]
    rfl
  · exact .inr ⟨hall, bind_of_error h1⟩

/-! ## `kheap_init` -/

/-- The block `kheap_init` starts with. -/
def wholeHeap : Blk := ⟨kheapStart, kheapSize - headerSize, true⟩

/-- Data memory after `kheap_init`. -/
def freshHeap (m : Mem) : Mem :=
  store32 (store32 (store32 m kheapStart (kheapSize - headerSize)) (kheapStart + 4) 1)
    (kheapStart + 12) 0

theorem kheapMap_onlyTables : Keeps OnlyTables (kheapMap img : K Flat Unit) := by
  refine .forUp onlyTables_frame (fun i => .bind onlyTables_frame pmmAllocPage_onlyTables
    fun phys => ?_) _ _
  have hmap : Keeps OnlyTables (do
      if (← vmmMapPage img (add32 kheapStart (i * pageSize)) phys pageWrite) ≠ 0 then
        kpanicFatal "kheap_init: failed to map page at %x\n" [add32 kheapStart (i * pageSize)] :
      K Flat Unit) :=
    .bind onlyTables_frame (vmmMapPage_onlyTables img _ _ _) fun r =>
      .ite (.throw _) (.pure onlyTables_frame _)
  exact .ite (.bind onlyTables_frame (.throw _) fun _ => hmap) hmap

/-- **`kheap_init`** after its mapping loop. -/
theorem kheapInit_eq {s s₁ : State Flat}
    (h : kheapMap img { s with kheap := ⟨kheapStart, kheapSize, 0, 0⟩ } = .ok () s₁) :
    kheapInit img s = .ok () { s₁ with
      kheap := ⟨kheapStart, kheapSize, 0, kheapStart⟩
      mem := { s₁.mem with data := freshHeap s₁.mem.data } } := by
  obtain ⟨p, t, rfl⟩ := kheapMap_onlyTables _ _ _ h
  unfold kheapInit
  rw [modify_bind_apply, bind_of_ok h, modify_bind_apply, get_bind_apply]
  simp only
  rw [bind_of_ok (st_flat (by decide) _ _), bind_of_ok (st_flat (by decide) _ _),
    st_flat (by decide)]
  rfl

theorem freshHeap_inv {s : State Flat} {m : Mem}
    (hk : s.kheap = ⟨kheapStart, kheapSize, 0, kheapStart⟩) (hm : s.mem.data = freshHeap m) :
    HeapInv s [wholeHeap] where
  base := by rw [hk]
  size := by rw [hk]
  start := by rw [hk]
  list := by
    rw [hm]
    refine ⟨rfl, by decide, ⟨?_, ?_, fun h => by cases h⟩, ?_⟩
    · show load32 (freshHeap m) kheapStart = kheapSize - headerSize
      unfold freshHeap
      rw [load32_store32_ne (by omega), load32_store32_ne (by omega), load32_store32 (by decide)]
    · show load32 (freshHeap m) (kheapStart + 4) = 1
      unfold freshHeap
      rw [load32_store32_ne (by omega), load32_store32 (by decide)]
    · show load32 (freshHeap m) (kheapStart + 12) = 0
      unfold freshHeap
      rw [load32_store32 (by decide)]
  tiled := ⟨rfl, rfl⟩
  align b hb := by
    rw [List.mem_singleton] at hb
    subst hb
    decide
  coalesced := .singleton _

theorem kheapInit_ok {s s' : State Flat} (h : kheapInit img s = .ok () s') :
    ∃ s₁, kheapMap img { s with kheap := ⟨kheapStart, kheapSize, 0, 0⟩ } = .ok () s₁ ∧
      s' = { s₁ with
        kheap := ⟨kheapStart, kheapSize, 0, kheapStart⟩
        mem := { s₁.mem with data := freshHeap s₁.mem.data } } := by
  have hbind :
      ∃ s₁, kheapMap img { s with kheap := ⟨kheapStart, kheapSize, 0, 0⟩ } = .ok () s₁ := by
    unfold kheapInit at h
    rw [modify_bind_apply] at h
    obtain ⟨_, s₁, h1, -⟩ := bind_eq_ok.mp h
    exact ⟨s₁, h1⟩
  obtain ⟨s₁, h1⟩ := hbind
  rw [kheapInit_eq h1] at h
  injection h with _ h
  exact ⟨s₁, h1, h.symm⟩

/-- However `kheap_init` returns, the heap is one free block and nothing is in use. -/
theorem kheapInit_inv {s s' : State Flat} (h : kheapInit img s = .ok () s') :
    HeapInv s' [wholeHeap] ∧ s'.kheap.heapUsed = 0 := by
  obtain ⟨s₁, -, rfl⟩ := kheapInit_ok h
  exact ⟨freshHeap_inv rfl rfl, rfl⟩

theorem kheapInit_data {s s' : State Flat} (h : kheapInit img s = .ok () s') :
    s'.mem.data = freshHeap s.mem.data := by
  obtain ⟨s₁, h1, rfl⟩ := kheapInit_ok h
  obtain ⟨q, t, hs₁⟩ := kheapMap_onlyTables _ _ _ h1
  show freshHeap s₁.mem.data = _
  rw [hs₁]

/-! ## `memory_init` -/

/-- Every page of the first 12 MB is mapped to itself. -/
def IdentityMapped (img : Image) (t : Mem) : Prop :=
  ∀ w, w < 2 ^ 32 → entryAt img t w = if w < 0xC00000 then w - w % 4096 + 3 else 0

/-- The frames in use are those below `n`. -/
structure FramesBelow (p : Pmm) (n : Nat) : Prop where
  total : p.totalPages = 2304
  bits : ∀ j, p.bit j = decide (j < n ∨ 2304 ≤ j)

theorem FramesBelow.take {p : Pmm} (hp : p.Inv) {n : Nat} (h : FramesBelow p n) (hn : n < 2304) :
    FramesBelow (p.take n) (n + 1) where
  total := by simpa using h.total
  bits j := by
    rw [p.bit_take j (hp.lt_bits (by rw [h.total]; exact hn)), h.bits j]
    by_cases hj : j = n
    · rw [if_pos hj, decide_eq_true (by omega)]
    · rw [if_neg hj, decide_eq_decide]
      omega

theorem FramesBelow.least {p : Pmm} {n k : Nat} (h : FramesBelow p n)
    (hb : p.bit k = false) (hmin : ∀ j, j < k → p.bit j = true) : k = n := by
  rw [h.bits k, decide_eq_false_iff_not] at hb
  by_contra hne
  have := hmin n (by omega)
  rw [h.bits n, decide_eq_true_iff] at this
  omega

theorem FramesBelow.free {p : Pmm} (hp : p.Inv) {n : Nat} (h : FramesBelow p n) :
    p.freePages = 2304 - n := by
  have hclear : p.clear = Finset.Ico n 2304 := by
    ext j
    simp only [Pmm.mem_clear, h.bits, h.total, Finset.mem_Ico, decide_eq_false_iff_not]
    omega
  rw [hp.count, hclear, Nat.card_Ico]

/-- Mapping the next frame at its own address changes no mapping. -/
theorem MapsFresh.identity {s s' : State Flat} {k n : Nat} {t : Mem} {va : Nat}
    (hm : MapsFresh img va s s' k t) (hp : s.pmm.Inv) (hf : FramesBelow s.pmm n)
    (hva : va = pmmStart + n * pageSize) (hid : IdentityMapped img s.mem.table) (hn : n < 2304) :
    FramesBelow s'.pmm (n + 1) ∧ IdentityMapped img s'.mem.table := by
  have hk := hf.least hm.clear hm.least
  subst hk
  rw [hm.eq]
  refine ⟨hf.take hp hn, fun w hw => ?_⟩
  refine (hm.upd w hw).trans ?_
  rw [hid w hw]
  simp only [pmmStart, pageSize] at *
  split
  · rw [if_pos (by omega)]
    omega
  · rfl

theorem kheapMap_spec {s : State Flat} (h : PagingInv img s) (hf : FramesBelow s.pmm 256)
    (hid : IdentityMapped img s.mem.table) :
    ∃ s', kheapMap img s = .ok () s' ∧ PagingInv img s' ∧ FramesBelow s'.pmm 512 ∧
      IdentityMapped img s'.mem.table ∧
      ∀ i, i < 1024 → pdeAt img s'.mem.table i = pdeAt img s.mem.table i := by
  refine forUp_total
    (fun i s' => PagingInv img s' ∧ FramesBelow s'.pmm (256 + i) ∧
      IdentityMapped img s'.mem.table ∧
      ∀ i, i < 1024 → pdeAt img s'.mem.table i = pdeAt img s.mem.table i)
    (l := 0) (n := kheapSize / pageSize) ⟨h, hf, hid, fun _ _ => rfl⟩ ?_
  rintro i s₁ - hi ⟨h₁, hf₁, hid₁, hpde₁⟩
  simp only [kheapSize, kheapEnd, kheapStart, pageSize] at hi
  have hva : add32 kheapStart (i * pageSize) = pmmStart + (256 + i) * pageSize := by
    simp only [add32, kheapStart, pmmStart, pageSize]
    omega
  have hlow : pmmStart + (256 + i) * pageSize < 0xC00000 := by
    simp only [pmmStart, pageSize]
    omega
  rw [← hva] at hlow
  rcases backPage_spec h₁ hlow (kpanicFatal "kheap_init: failed to allocate physical page %d\n" [i])
    (kpanicFatal "kheap_init: failed to map page at %x\n" [add32 kheapStart (i * pageSize)]) with
    ⟨k, t, s', hm, hr⟩ | ⟨hall, -⟩
  · obtain ⟨hf', hid'⟩ := hm.identity h₁.pmm hf₁ hva hid₁ (by omega)
    refine ⟨s', hr, hm.inv, hf', hid', fun j hj => ?_⟩
    rw [hm.eq]
    exact (hm.pde j hj).trans (hpde₁ j hj)
  · have := hall (256 + i) (by rw [hf₁.total]; omega)
    rw [hf₁.bits, decide_eq_true_iff] at this
    omega

/-- **The state `memory_init` leaves.** -/
structure Booted (img : Image) (s : State Flat) : Prop where
  paging : PagingInv img s
  frames : FramesBelow s.pmm 512
  identity : IdentityMapped img s.mem.table
  tables : ∀ i, i < 1024 → (Present img s.mem.table i ↔ i < 3)
  vmem : s.vmem = ⟨kvmemStart, 0, 0⟩
  heap : HeapInv s [wholeHeap]
  used : s.kheap.heapUsed = 0

/-- **`memory_init`** at the kernel's memory size returns. -/
theorem memoryInit_spec (img : Image) (m : Flat) :
    ∃ s, memoryInit img pmmMaxBytes (State.boot m) = .ok () s ∧ Booted img s := by
  obtain ⟨p, hr₁, ht, hf, hb⟩ := pmmInit_spec (m := pmmMaxBytes) (by decide) (by decide)
    (State.boot m)
  have hpages : pagesOf pmmMaxBytes = 2304 := by decide
  rw [hpages] at ht hb
  obtain ⟨t, hr₂, hinit⟩ := pagingInit_spec img { State.boot m with pmm := p }
  have hframes : FramesBelow p 256 := by
    refine ⟨ht, fun j => ?_⟩
    rw [hb j, decide_eq_decide]
    simp
  have hpinv : p.Inv := pmmInit_inv (m := pmmMaxBytes) (ht.trans hpages.symm) hf
    (by rw [hpages]; exact hb)
  obtain ⟨s₁, hs₁⟩ : ∃ s₁ : State Flat, s₁ = { State.boot m with
      pmm := p
      kheap := ⟨kheapStart, kheapSize, 0, 0⟩
      mem := { m with
        table := t
        cr3 := img.pageDirectory
        cr0 := (m.cr0 ||| 1 <<< 16) ||| 0x80000000 } } := ⟨_, rfl⟩
  have hinit₁ : InitialTables img s₁.mem.table := by rw [hs₁]; exact hinit
  have hinv₁ : PagingInv img s₁ := by
    refine hinit₁.inv ?_ fun i hi => ?_
    · rw [hs₁]; exact hpinv
    · rw [hs₁]
      exact (hframes.bits i).trans (decide_eq_true (by omega))
  obtain ⟨s₂, hr₃, hinv₂, hf₂, hid₂, hpde₂⟩ := kheapMap_spec hinv₁ (by rw [hs₁]; exact hframes)
    fun w hw => hinit₁.entryAt hw
  obtain ⟨p₂, t₂, hs₂⟩ := kheapMap_onlyTables _ _ _ hr₃
  refine ⟨{ s₂ with
    kheap := ⟨kheapStart, kheapSize, 0, kheapStart⟩
    mem := { s₂.mem with data := freshHeap s₂.mem.data } }, ?_, ?_⟩
  · unfold memoryInit
    rw [bind_of_ok hr₁, bind_of_ok hr₂]
    refine (bind_of_ok rfl).trans (kheapInit_eq ?_)
    rw [← hr₃, hs₁]
    rfl
  · refine ⟨⟨hinv₂.pmm, hinv₂.reserved, hinv₂.low, hinv₂.own, hinv₂.inj⟩, hf₂, hid₂, fun i hi => ?_,
      ?_, freshHeap_inv rfl rfl, rfl⟩
    · exact (present_congr (hpde₂ i hi)).trans (hinit₁.present hi)
    · rw [hs₂, hs₁]
      rfl

theorem memoryInit_kheapInit {m : Flat} {s : State Flat}
    (h : memoryInit img pmmMaxBytes (State.boot m) = .ok () s) :
    ∃ s₀, kheapInit img s₀ = .ok () s ∧ s₀.mem.data = m.data := by
  obtain ⟨p, hr₁, -⟩ := pmmInit_spec (m := pmmMaxBytes) (by decide) (by decide) (State.boot m)
  obtain ⟨t, hr₂, -⟩ := pagingInit_spec img { State.boot m with pmm := p }
  unfold memoryInit at h
  rw [bind_of_ok hr₁, bind_of_ok hr₂] at h
  obtain ⟨_, s₀, hr₃, h⟩ := bind_eq_ok.mp h
  cases hr₃
  exact ⟨_, h, rfl⟩

end Kfs
