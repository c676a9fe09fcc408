import Kfs.MmuInv
import Kfs.VmemRun

/-!
# Do the two page walks agree?

`virt_to_pte` follows a table's physical address as a pointer. That reads the
word the hardware consults only while the table's own page is mapped to itself,
and `vmalloc` and `vbrk` remap pages of the pool that tables come from. A run is
clean as long as no expansion covers a table; over clean runs the walks agree in
every state, and one expansion over the table of `pageops` is enough to part
them.
-/

namespace Kfs

open Kfs.Lib

variable {img : Image}

/-! ## `memory_init` -/

theorem kheapMap_low {s : State Mmu} (h : WalkInv img s 256 none) :
    ∃ p, kheapMap img s = .ok () { s with pmm := p } ∧
    WalkInv img { s with pmm := p } 512 none := by
  have := forUp_total (l := 0) (n := kheapSize / pageSize) (s := s) (f := fun i => (do
      let phys ← pmmAllocPage
      if phys = 0 then
        kpanicFatal "kheap_init: failed to allocate physical page %d\n" [i]
      let v := add32 kheapStart (i * pageSize)
      if (← vmmMapPage img v phys pageWrite) ≠ 0 then
        kpanicFatal "kheap_init: failed to map page at %x\n" [v] : K Mmu Unit))
    (fun i t => ∃ p, t = { s with pmm := p } ∧ WalkInv img t (256 + i) none) ⟨s.pmm, rfl, h⟩ ?_
  · obtain ⟨_, hr, p, rfl, hinv⟩ := this
    exact ⟨p, hr, hinv⟩
  rintro i _ - hi ⟨p, rfl, hinv⟩
  simp only [kheapSize, kheapEnd, kheapStart, pageSize] at hi
  have hva : add32 kheapStart (i * pageSize) = frameAddr (256 + i) := by
    simp only [add32, kheapStart, frameAddr, pmmStart, pageSize]
    omega
  rcases backRound_low hinv (by simp) hva
    (kpanicFatal "kheap_init: failed to allocate physical page %d\n" [i])
    (kpanicFatal "kheap_init: failed to map page at %x\n" [add32 kheapStart (i * pageSize)]) with
    ⟨hinv', hr⟩ | ⟨hle, -⟩
  · exact ⟨_, hr, _, rfl, hinv'⟩
  · omega

theorem kheapInit_low {s : State Mmu} {p : Pmm}
    (h : kheapMap img { s with kheap := ⟨kheapStart, kheapSize, 0, 0⟩ } =
      .ok () { s with kheap := ⟨kheapStart, kheapSize, 0, 0⟩, pmm := p })
    (hw : Walking img s.mem) (hid : IdentityTables img s.mem.phys) :
    kheapInit img s = .ok () { s.setPhys (freshHeap s.mem.phys) with
      kheap := ⟨kheapStart, kheapSize, 0, kheapStart⟩
      pmm := p } := by
  have hpd := img.pdHi
  have hpt := img.ptHi
  have hplain : Plain physData s.mem fun x => kheapStart ≤ x ∧ x < kheapStart + 16 :=
    plain_low hw hid (.inl rfl) fun x hx => by
      simp only [kheapStart] at hx
      exact ⟨by omega, fun h => by rcases h with h | h <;> omega⟩
  obtain ⟨s₁, hs₁⟩ : ∃ s₁ : State Mmu, s₁ = { s with
    kheap := ⟨kheapStart, kheapSize, 0, kheapStart⟩
    pmm := p } := ⟨_, rfl⟩
  have hst : ∀ {d a} v, SameOff (fun x => kheapStart ≤ x ∧ x < kheapStart + 16) s.mem.phys d →
      kheapStart ≤ a → a + 4 ≤ kheapStart + 16 →
      st a v (physData.put s₁ d) = .ok () (physData.put s₁ (store32 d a v)) := by
    intro d a v hd h1 h2
    subst hs₁
    refine Plain.st (s := { s with kheap := _, pmm := p }) physData_isData hplain hd ?_
      (fun x h3 h4 => ⟨by omega, by omega⟩) v
    simp only [kheapStart] at h2
    omega
  have s0 := SameOff.refl (fun x => kheapStart ≤ x ∧ x < kheapStart + 16) s.mem.phys
  have s1 := s0.store32 (a := kheapStart) (v := kheapSize - headerSize)
    fun x h1 h2 => ⟨h1, by omega⟩
  have s2 := s1.store32 (a := kheapStart + 4) (v := 1) fun x h1 h2 => ⟨by omega, by omega⟩
  have e1 := hst (kheapSize - headerSize) s0 (Nat.le_refl _) (by omega)
  have e2 := hst 1 s1 (a := kheapStart + 4) (by omega) (by omega)
  have e3 := hst 0 s2 (a := kheapStart + 12) (by omega) (by omega)
  have hput : physData.put s₁ s.mem.phys = s₁ := by
    rw [hs₁]
    rfl
  rw [hput] at e1
  unfold kheapInit
  rw [modify_bind_apply, bind_of_ok h, modify_bind_apply, get_bind_apply]
  subst hs₁
  refine (bind_of_ok e1).trans ?_
  refine (bind_of_ok e2).trans ?_
  exact e3

theorem pmmInit_used {M : Type} (s : State M) :
    ∃ p, pmmInit pmmMaxBytes s = .ok () { s with pmm := p } ∧ Used p (· < 256) := by
  obtain ⟨p, hr, ht, hf, hb⟩ := pmmInit_spec (m := pmmMaxBytes) (by decide) (by decide) s
  have hpages : pagesOf pmmMaxBytes = 2304 := by decide
  have hpinv := pmmInit_inv ht hf hb
  rw [hpages] at ht hb
  refine ⟨p, hr, hpinv, ht, fun j hj => ?_⟩
  rw [hb j, decide_eq_true_iff]
  simp only [reservePages, pageSize]
  omega

theorem pagingInit_off (img : Image) {s : State Mmu} (hoff : s.mem.pagingOn = false) :
    ∃ t, pagingInit img s = .ok () { s with
        mem := ⟨t, s.mem.cr0 ||| 1 <<< 16, img.pageDirectory⟩ } ∧
      InitialTables img t ∧ SameOff (StaticTables img) s.mem.phys t := by
  have hpd := img.pdHi
  have hpt := img.ptHi
  obtain ⟨t, htab, hinit, hsame⟩ := pagingTables_spec img (P := physTable) (fun _ => rfl) (s := s)
    (physTable_plain_off hoff fun x hx => by rcases hx with hx | hx <;> omega)
  obtain ⟨_, s₁, hr₁, hr₂⟩ := bind_eq_ok.mp htab
  refine ⟨t, ?_, hinit, hsame⟩
  unfold pagingInit
  rw [bind_of_ok hr₁, bind_of_ok hr₂]
  rfl

theorem pagingEnable_eq (s : State Mmu) :
    pagingEnable s = .ok () { s with mem := { s.mem with cr0 := s.mem.cr0 ||| 0x80000000 } } := rfl

theorem pagingEnable_on (c : Nat) : (c ||| 0x80000000).testBit 31 = true := by
  rw [Nat.testBit_or, show Nat.testBit 0x80000000 31 = true by decide, Bool.or_true]

theorem beforeKheap_low (img : Image) {m : Mmu} (hoff : m.pagingOn = false) :
    ∃ s, (do pmmInit pmmMaxBytes; pagingInit img; pagingEnable : K Mmu Unit) (State.boot m) =
      .ok () s ∧
      WalkInv img s 256 none ∧ s.vmem = ⟨kvmemStart, 0, 0⟩ := by
  obtain ⟨p, hr₁, hused⟩ := pmmInit_used (State.boot m)
  obtain ⟨t, hr₂, hinit, -⟩ := pagingInit_off img (s := { State.boot m with pmm := p }) hoff
  refine ⟨{ State.boot m with
      pmm := p
      mem := ⟨t, (m.cr0 ||| 1 <<< 16) ||| 0x80000000, img.pageDirectory⟩ }, ?_, ?_, rfl⟩
  · rw [bind_of_ok hr₁, bind_of_ok hr₂, pagingEnable_eq]
    rfl
  · refine ⟨⟨pagingEnable_on _, rfl⟩, ⟨hinit.low, fun i h3 hi => ?_, by simp⟩,
      hused.congr fun j => by simp [Held], by omega, by omega, by simp⟩
    refine (hinit.pde i hi).trans ?_
    rw [if_neg (by omega)]
    split <;> rfl

theorem memoryInit_of_before {M : Type} [Bus M] {img : Image} {n : Nat} {s s' : State M}
    (h : (do pmmInit n; pagingInit img; pagingEnable : K M Unit) s = .ok () s') :
    memoryInit img n s = kheapInit img s' := by
  obtain ⟨_, s₁, h₁, h⟩ := bind_eq_ok.mp h
  obtain ⟨_, s₂, h₂, h₃⟩ := bind_eq_ok.mp h
  unfold memoryInit
  rw [bind_of_ok h₁, bind_of_ok h₂, bind_of_ok h₃]

/-- **`memory_init`** behind the paging hardware: paging is off while the tables are
built, and the heap is mapped to itself. -/
theorem memoryInit_low (img : Image) {m : Mmu} (hoff : m.pagingOn = false) :
    ∃ s, memoryInit img pmmMaxBytes (State.boot m) = .ok () s ∧ WalkInv img s 512 none ∧
      s.vmem = ⟨kvmemStart, 0, 0⟩ := by
  have hpd := img.pdHi
  have hpt := img.ptHi
  obtain ⟨s₂, hbefore, hinv₂, hv₂⟩ := beforeKheap_low img hoff
  have hinv₂' : WalkInv img { s₂ with kheap := ⟨kheapStart, kheapSize, 0, 0⟩ } 256 none :=
    hinv₂.congr rfl rfl
  obtain ⟨p', hr₄, hinv₃⟩ := kheapMap_low hinv₂'
  have hrun := memoryInit_of_before hbefore
  refine ⟨_, hrun.trans (kheapInit_low hr₄ hinv₂.walking hinv₂.tables.low), ?_, hv₂⟩
  -- the header of the free block is data
  refine (hinv₃.setPhys (d := freshHeap s₂.mem.phys) ?_).congr rfl rfl
  rintro x (hx | ⟨k, hk, -⟩)
  · unfold freshHeap
    rw [store32_other, store32_other, store32_other] <;> simp only [kheapStart] <;>
      rcases hx with hx | hx <;> omega
  · cases hk

/-! ## Runs -/

/-- A call of the memory subsystem. -/
inductive WalkOp where
  | vmalloc (n : Nat)
  | vfree (p : Nat)
  | vbrk (a : Nat)
  | pageops

variable (img)

/-- A call that returns; `live` collects the pointers `vmalloc` gave out. -/
def WalkStep (x : VmemSys Mmu) : WalkOp → VmemSys Mmu → Prop
  | .vmalloc n, y => n < 2 ^ 32 ∧ ∃ p, vmalloc img n x.st = .ok p y.st ∧
      y.live = if p = 0 then x.live else insert p x.live
  | .vfree p, y => p < 2 ^ 32 ∧ vfree p x.st = .ok () y.st ∧ y.live = x.live.erase p
  | .vbrk a, y => a < 2 ^ 32 ∧ (∃ r, vbrk img a x.st = .ok r y.st) ∧ y.live = x.live
  | .pageops, y => (∃ r, cmdPageOps img x.st = .ok r y.st) ∧ y.live = x.live

def WalkStart (x : VmemSys Mmu) : Prop :=
  ∃ m : Mmu, m.pagingOn = false ∧ memoryInit img pmmMaxBytes (State.boot m) = .ok () x.st ∧
    x.live = ∅

/-- **The two walks agree.** Every present slot's table is mapped to itself, and for
every address whose slot is present the word `virt_to_pte` points at is the one the
hardware consults. -/
structure WalksAgree (s : State Mmu) : Prop where
  self : ∀ i, i < 1024 → s.mem.dirEntry i &&& pagePresent ≠ 0 → ∀ o, o < 4096 → ∀ w,
    s.mem.translate w ((s.mem.dirEntry i &&& 0xFFFFF000) + o) =
      .ok ((s.mem.dirEntry i &&& 0xFFFFF000) + o)
  same : ∀ v, v < 2 ^ 32 → s.mem.dirEntry ((v >>> 22) &&& 0x3FF) &&& pagePresent ≠ 0 → ∀ create,
    ∃ pte, virtToPte img v create s = .ok pte s ∧
      ∀ o, o < 4 → ∀ w, s.mem.translate w (pte + o) = .ok (s.mem.pteAddr v + o)

variable {img}

/-- A page table lies in `[a, b)`. -/
def TableIn (m : Mmu) (a b : Nat) : Prop :=
  ∃ i, i < 1024 ∧ m.dirEntry i &&& pagePresent ≠ 0 ∧ a ≤ m.dirEntry i &&& 0xFFFFF000 ∧
    m.dirEntry i &&& 0xFFFFF000 < b

/-- A listed free block can serve `r` bytes. -/
def ListedFit (s : State Mmu) (r : Nat) : Prop :=
  ∃ hs, VBlocks s.mem.phys s.vmem.vmemList hs ∧ ∃ b ∈ hs, b.free ≠ 0 ∧ r ≤ b.size

/-- **The condition on a step**: what `vfree` gets is null or live, and the pages that
`vmalloc` or `vbrk` add hold no page table (nor does their end wrap around). -/
def CleanStep (x : VmemSys Mmu) : WalkOp → Prop
  | .vmalloc n => n = 0 ∨ ListedFit x.st (round8 n) ∨
      x.st.vmem.vmemCurrent + round8 n + 4115 < 2 ^ 32 ∧
        ¬ TableIn x.st.mem x.st.vmem.vmemCurrent
          (x.st.vmem.vmemCurrent + vmemPages (round8 n) * pageSize)
  | .vfree p => p = 0 ∨ p ∈ x.live
  | .vbrk a => ¬ TableIn x.st.mem x.st.vmem.vmemCurrent a
  | .pageops => True

/-! ## The walks agree under the invariant -/

theorem WalkInv.table_cases {s : State Mmu} {n : Nat} {tbl : Option Nat} (h : WalkInv img s n tbl)
    {i : Nat} (hi : i < 1024) (hp : Present img s.mem.phys i) :
    (i < 3 ∧ tableOf img s.mem.phys i = img.pageTables + 4096 * i) ∨
      ∃ k, tbl = some k ∧ tableOf img s.mem.phys i = frameAddr k := by
  by_cases h3 : i < 3
  · exact .inl ⟨h3, h.tables.low.tableOf h3⟩
  unfold Present at hp
  rw [h.tables.slots i (by omega) hi] at hp
  split at hp
  swap
  · omega
  next hi64 =>
  rw [pdIndex_testPage] at hi64
  subst hi64
  cases tbl with
  | none => exact absurd hp (by decide)
  | some k => exact .inr ⟨k, rfl, h.tables.testTable⟩

theorem WalkInv.table_low {s : State Mmu} {n : Nat} {tbl : Option Nat} (h : WalkInv img s n tbl)
    {i : Nat} (hi : i < 1024) (hp : Present img s.mem.phys i) :
    tableOf img s.mem.phys i + 4096 ≤ 0xA00000 := by
  have hpt := img.ptHi
  rcases h.table_cases hi hp with ⟨h3, hT⟩ | ⟨k, hk, hT⟩
  · omega
  · have := (h.above k hk).2
    rw [hT]
    simp only [frameAddr, pmmStart, pageSize]
    omega

theorem Walking.present {m : Mmu} (h : Walking img m) {i : Nat}
    (hp : m.dirEntry i &&& pagePresent ≠ 0) : Present img m.phys i := by
  rw [h.dirEntry, and_pagePresent] at hp
  unfold Present
  omega

theorem WalkInv.agree {s : State Mmu} {n : Nat} {tbl : Option Nat} (h : WalkInv img s n tbl) :
    WalksAgree img s := by
  refine ⟨fun i hi hp o ho w => ?_, fun v hv hp create => ?_⟩
  · have := h.table_low hi (h.walking.present hp)
    rw [h.walking.dirEntry, tableOf_eq]
    exact h.walking.translate_low h.tables.low (by omega) w
  · rw [pdIndex_eq hv] at hp
    have hpres := h.walking.present hp
    have := h.table_low (pdIndex_lt hv) hpres
    have hj := ptIndex_lt v
    refine ⟨_, virtToPte_present hv (readsPde_low h.walking h.tables.low hv) hpres create,
      fun o ho w => ?_⟩
    rw [h.walking.pteAddr hv]
    exact h.walking.translate_low h.tables.low (by omega) w

/-! ## Steps -/

/-- **The run invariant.** -/
structure MmuOk (img : Image) (x : VmemSys Mmu) (n : Nat) (tbl : Option Nat) (bs : List VBlk) :
    Prop where
  walk : WalkInv img x.st n tbl
  last : x.st.vmem.vmemCurrent = frameAddr n
  list : VmemInv physData x.st bs
  live : VLive x.live bs

section Step

variable {x : VmemSys Mmu} {n : Nat} {tbl : Option Nat} {bs : List VBlk}

/-- What `vmem.c` reaches is plain: the tables are not in it. -/
theorem WalkInv.plain {s : State Mmu} (h : WalkInv img s n tbl) {e : Nat} (he : e ≤ 0xC00000) :
    Plain physData s.mem (vmemWindow e) := by
  have hlo := img.pdLo
  have hlo' := img.ptLo
  have hpd := img.pdHi
  have hpt := img.ptHi
  refine plain_low h.walking h.tables.low (.inl rfl) fun y hy => ?_
  simp only [vmemWindow, kvmemStart] at hy
  exact ⟨by omega, fun hs => by rcases hs with hs | hs <;> omega⟩

theorem MmuOk.plain (h : MmuOk img x n tbl bs) {e : Nat} (he : e ≤ 0xC00000) :
    Plain physData x.st.mem (vmemWindow e) := h.walk.plain he

theorem WalkInv.off_region {s : State Mmu} (h : WalkInv img s n tbl) {y : Nat}
    (hy : TableBytes img tbl y) : y < 0x200000 ∨ frameAddr n ≤ y := by
  have hpd := img.pdHi
  have hpt := img.ptHi
  rcases hy with (hy | hy) | ⟨k, hk, hy, -⟩
  · exact .inl (by omega)
  · exact .inl (by omega)
  · exact .inr ((frameAddr_mono (h.above k hk).1).trans hy)

/-- The test page's table is what a range of pages can run into. -/
theorem WalkInv.tableIn {s : State Mmu} {k a b : Nat} (h : WalkInv img s n (some k))
    (ha : a ≤ frameAddr k) (hb : frameAddr k < b) : TableIn s.mem a b := by
  have hk := (h.above k rfl).2
  refine ⟨64, by omega, ?_⟩
  rw [h.walking.dirEntry, tableOf_eq, h.tables.testTable, and_pagePresent]
  refine ⟨?_, ha, hb⟩
  have := h.tables.testPresent
  unfold Present at this
  omega

theorem WalkInv.not_tableIn {s : State Mmu} {a b : Nat} (h : WalkInv img s n tbl)
    (ha : 0x200000 ≤ a) (hb : ∀ k, tbl = some k → b ≤ frameAddr k) : ¬ TableIn s.mem a b := by
  have hpt := img.ptHi
  rintro ⟨i, hi, hp, h1, h2⟩
  rw [h.walking.dirEntry, tableOf_eq] at h1 h2
  rcases h.table_cases hi (h.walking.present hp) with ⟨h3, hT⟩ | ⟨k, hk, hT⟩
  · omega
  · have := hb k hk
    omega

theorem MmuOk.fits (h : MmuOk img x n tbl bs) {r : Nat} (hfit : ListedFit x.st r) :
    ∃ b ∈ bs, b.Fits r := by
  obtain ⟨hs, ⟨as, hfol, rfl⟩, hd, hmem, hfree, hsize⟩ := hfit
  obtain ⟨a, ha, rfl⟩ := List.mem_map.mp hmem
  have has : as = bs.map vNode.addr := hfol.unique h.list.list.follows
  rw [has] at ha
  obtain ⟨b, hb, rfl⟩ := List.mem_map.mp ha
  obtain ⟨h1, h2, -, -⟩ := h.list.list.holds b hb
  have hfree : load32 x.st.mem.phys (b.addr + 8) ≠ 0 := hfree
  have hsize : r ≤ load32 x.st.mem.phys b.addr := hsize
  have h2 : load32 x.st.mem.phys (b.addr + 8) = if b.free then 1 else 0 := h2
  have h1 : load32 x.st.mem.phys b.addr = b.size := h1
  refine ⟨b, hb, ?_, by omega⟩
  cases hbf : b.free with
  | true => rfl
  | false =>
    rw [hbf] at h2
    exact absurd h2 hfree

theorem MmuOk.append (h : MmuOk img x n tbl bs) {k r p : Nat} {q : Pmm} {s₁ s' : State Mmu}
    (hs₁ : s₁ = { x.st with pmm := q }) (hw : WalkInv img s₁ (n + k) tbl)
    (hk : r + 20 ≤ k * 4096) (hlim : frameAddr (n + k) ≤ 0xC00000)
    (happ : vmemAppend r (lastAddr 0 bs) k (frameAddr (n + k)) s₁ = .ok p s') :
    ∃ bs', MmuOk img ⟨s', if p = 0 then x.live else insert p x.live⟩ (n + k) tbl bs' := by
  have hlast : s₁.vmem.vmemCurrent = frameAddr n := by
    rw [hs₁]
    exact h.last
  have hinv : VmemInv physData s₁ bs := by
    rw [hs₁]
    obtain ⟨h1, h2, h3, h4, h5⟩ := h.list
    exact ⟨h1, h2, h3, h4, h5⟩
  have hplain : Plain physData s₁.mem (vmemWindow (frameAddr (n + k))) := by
    rw [hs₁]
    exact h.plain hlim
  have hend : frameAddr (n + k) = s₁.vmem.vmemCurrent + k * 4096 := by
    rw [hlast]
    simp only [frameAddr, pageSize]
    omega
  obtain ⟨s₂, happ', ⟨d, hmem, hpmm, -, -, hsame⟩, hcur, hinv₂⟩ :=
    vmemAppend_spec physData_isData hinv hplain hend hlim hk
  rw [happ'] at happ
  injection happ with hp hs
  subst hs
  have hlo := hinv.lo
  refine ⟨_, (hw.setPhys (d := d) fun y hy => hsame y ?_).congr hmem hpmm, hcur, hinv₂, ?_⟩
  · -- the bytes stored lie in the region, the tables do not
    simp only [kvmemStart] at hlo
    rintro (hy' | ⟨c, hcb, h1, h2⟩)
    · rcases hw.off_region hy with hy | hy
      · omega
      · omega
    · have := hinv.mem hcb
      have := frameAddr_mono (Nat.le_add_right n k)
      rcases hw.off_region hy with hy | hy <;> omega
  · have hne : p ≠ 0 := by
      rw [← hp]
      omega
    show VLive (if p = 0 then x.live else insert p x.live) _
    rw [if_neg hne]
    intro q hq
    rcases Finset.mem_insert.mp hq with rfl | hq
    · exact ⟨_, List.mem_append_right _ List.mem_cons_self, rfl, hp.symm⟩
    · obtain ⟨b, hb, h1, h2⟩ := h.live q hq
      exact ⟨b, by simp [hb], h1, h2⟩

theorem MmuOk.vmalloc_fresh (h : MmuOk img x n tbl bs) {r p : Nat} {s' : State Mmu} (hr0 : r ≠ 0)
    (hfull : ∀ b ∈ bs, ¬ b.Fits (round8 r))
    (hwrap : x.st.vmem.vmemCurrent + round8 r + 4115 < 2 ^ 32)
    (hc : ¬ TableIn x.st.mem x.st.vmem.vmemCurrent
      (x.st.vmem.vmemCurrent + vmemPages (round8 r) * pageSize))
    (hr : vmalloc img r x.st = .ok p s') :
    ∃ k bs', MmuOk img ⟨s', if p = 0 then x.live else insert p x.live⟩ (n + k) tbl bs' := by
  have hlast := h.last
  rw [vmalloc_full physData_isData img h.list (h.plain h.list.hi) hr0 hfull] at hr
  obtain ⟨k, e, s₁, hpages, hk, he, hlim, hmap, happ⟩ := vmallocExpand_ok hwrap hr
  rw [hlast] at he hmap hc
  rw [he] at hmap
  rw [← hpages] at hc
  have hend : e = frameAddr (n + k) := by
    rw [he]
    simp only [frameAddr, pageSize]
    omega
  have hoff : ∀ i, i < k → tbl ≠ some (n + i) := by
    rintro i hi rfl
    apply hc
    apply h.walk.tableIn (frameAddr_mono (by omega))
    simp only [frameAddr, pageSize]
    omega
  obtain ⟨hw, q, hs₁⟩ := vmallocMap_low h.walk hoff hmap
  subst hend
  simp only [kvmemEnd] at hlim
  exact ⟨k, h.append hs₁ hw hk (by omega) happ⟩

theorem MmuOk.vmalloc_served {pre post : List VBlk} {b : VBlk}
    (h : MmuOk img x n tbl (pre ++ b :: post)) {r p : Nat} {s' : State Mmu} (hr0 : r ≠ 0)
    (hpre : ∀ c ∈ pre, ¬ c.Fits (round8 r)) (hb : b.Fits (round8 r))
    (hr : vmalloc img r x.st = .ok p s') :
    MmuOk img ⟨s', if p = 0 then x.live else insert p x.live⟩ n tbl
      (pre ++ b.serve (round8 r) ++ post) := by
  have hplain := h.plain h.list.hi
  obtain ⟨d, hv, hinv, rfl⟩ := vmalloc_hit physData_isData img h.list hplain hr0 hpre hb
  rw [hv] at hr
  injection hr with hp hs
  subst hs hp
  have hlast := h.last
  have hbin := h.list.mem (b := b) (by simp)
  refine ⟨h.walk.setPhys fun y hy => vserved_same y fun hy' => ?_, hlast, hinv, ?_⟩
  · have hy' := VBlk.serve_header hy'
    rcases h.walk.off_region hy with hy | hy <;> omega
  · show VLive (if b.addr + 20 = 0 then x.live else insert (b.addr + 20) x.live) _
    rw [if_neg (by omega)]
    exact h.live.serve hb.1

/-- **`vmalloc`** keeps the invariant. -/
theorem MmuOk.vmalloc (h : MmuOk img x n tbl bs) {r p : Nat} {s' : State Mmu} (hr0 : r ≠ 0)
    (hc : CleanStep x (.vmalloc r)) (hr : vmalloc img r x.st = .ok p s') :
    ∃ n' bs', MmuOk img ⟨s', if p = 0 then x.live else insert p x.live⟩ n' tbl bs' := by
  rcases first_such (VBlk.Fits (round8 r)) bs with hfull | ⟨pre, b, post, rfl, hpre, hb⟩
  · rcases hc with hc | hc | ⟨hwrap, hc⟩
    · exact absurd hc hr0
    · obtain ⟨b, hb, hfit⟩ := h.fits hc
      exact absurd hfit (hfull b hb)
    · obtain ⟨k, bs', hok⟩ := h.vmalloc_fresh hr0 hfull hwrap hc hr
      exact ⟨n + k, bs', hok⟩
  · exact ⟨n, _, h.vmalloc_served hr0 hpre hb hr⟩

theorem VmemInv.same {s s' : State Mmu} {bs : List VBlk} (h : VmemInv physData s bs)
    (hv : s'.vmem = s.vmem)
    (hd : ∀ y, vmemWindow s.vmem.vmemCurrent y → s'.mem.phys y = s.mem.phys y) :
    VmemInv physData s' bs where
  list := by
    rw [hv]
    refine h.list.frame fun b hb y h1 h2 => hd y (.inr ?_)
    have := h.mem hb
    have h1 : b.addr ≤ y := h1
    have h2 : y < b.addr + 20 := h2
    simp only [kvmemStart]
    omega
  blocks := hv ▸ h.blocks
  lo := hv ▸ h.lo
  hi := hv ▸ h.hi
  page := hv ▸ h.page

/-- The state after a round of `vbrk`. -/
def State.grown (s : State Mmu) : State Mmu :=
  { s with vmem := { s.vmem with
      vmemCurrent := add32 s.vmem.vmemCurrent pageSize
      vmemSize := add32 s.vmem.vmemSize pageSize } }

theorem State.grown_current (s : State Mmu) :
    s.grown.vmem.vmemCurrent = add32 s.vmem.vmemCurrent pageSize := rfl

theorem State.grown_list (s : State Mmu) : s.grown.vmem.vmemList = s.vmem.vmemList := by
  unfold State.grown
  rfl

theorem vbrkStep_next {s s₁ : State Mmu} {a f : Nat} {p : Pmm} (hlt : s.vmem.vmemCurrent < a)
    (h1 : pmmAllocPage s = .ok f { s with pmm := p })
    (h2 : vmmMapPage img s.vmem.vmemCurrent f pageWrite { s with pmm := p } = .ok 0 s₁) :
    vbrkStep img a () s = .ok (.inl ()) s₁.grown := by
  unfold vbrkStep
  rw [get_bind_apply, if_pos hlt, bind_of_ok h1, bind_of_ok h2]
  rfl

theorem frameAddr_succ {n : Nat} (hn : n < 2304) :
    add32 (frameAddr n) pageSize = frameAddr (n + 1) := by
  simp only [add32, frameAddr, pmmStart, pageSize]
  omega

theorem vbrkStep_done {s : State Mmu} {a : Nat} (h : a ≤ s.vmem.vmemCurrent) :
    vbrkStep img a () s = .ok (.inr ()) s := by
  unfold vbrkStep
  rw [get_bind_apply, if_neg (by omega)]
  rfl

/-- **One round of `vbrk`** while the next frame holds no table: the region holds `a`, or it
grows by the frame at its end, or there is none. -/
theorem vbrkStep_low {s : State Mmu} {a : Nat} (h : WalkInv img s n tbl)
    (hcur : s.vmem.vmemCurrent = frameAddr n) (htbl : frameAddr n < a → tbl ≠ some n) :
    (a ≤ frameAddr n ∧ vbrkStep img a () s = .ok (.inr ()) s) ∨
    (frameAddr n < a ∧ n < 2304 ∧
      vbrkStep img a () s = .ok (.inl ()) (State.grown { s with pmm := s.pmm.take n }) ∧
      WalkInv img (State.grown { s with pmm := s.pmm.take n }) (n + 1) tbl ∧
      (State.grown { s with pmm := s.pmm.take n }).vmem.vmemCurrent = frameAddr (n + 1)) ∨
    (frameAddr 2304 < a ∧ vbrkStep img a () s = .error (.panic "PMM out of memory\n" []) s) := by
  by_cases hlt : frameAddr n < a
  swap
  · exact .inl ⟨by omega, vbrkStep_done (by omega)⟩
  refine .inr ?_
  rcases backPage_low h (htbl hlt) with ⟨hn, h1, h2, hinv⟩ | ⟨hn, h1⟩
  · refine .inl ⟨hlt, hn, vbrkStep_next (by omega) h1 (by rw [hcur]; exact h2),
      hinv.congr rfl rfl, ?_⟩
    rw [State.grown_current]
    show add32 s.vmem.vmemCurrent pageSize = _
    rw [hcur]
    exact frameAddr_succ hn
  · subst hn
    refine .inr ⟨hlt, ?_⟩
    unfold vbrkStep
    rw [get_bind_apply, if_pos (by omega)]
    exact bind_of_error h1

theorem MmuOk.vbrkStep (h : MmuOk img x n tbl bs) {a : Nat} {r : Unit ⊕ Unit} {s' : State Mmu}
    (htbl : frameAddr n < a → tbl ≠ some n) (hr : vbrkStep img a () x.st = .ok r s') :
    ∃ n', n ≤ n' ∧ MmuOk img ⟨s', x.live⟩ n' tbl bs := by
  rcases vbrkStep_low h.walk h.last htbl with ⟨-, he⟩ | ⟨-, hn, he, hinv, hcur⟩ | ⟨-, he⟩
  · rw [he] at hr
    cases hr
    exact ⟨n, Nat.le_refl n, h⟩
  · rw [he] at hr
    injection hr with _ hr
    subst hr
    have hle : x.st.vmem.vmemCurrent ≤ frameAddr (n + 1) := by
      rw [h.last]
      exact frameAddr_mono (Nat.le_succ n)
    refine ⟨n + 1, Nat.le_succ n, hinv, hcur, ⟨?_, ?_, ?_, ?_, ?_⟩, h.live⟩
    · unfold State.grown
      exact h.list.list
    all_goals rw [hcur]
    · exact h.list.blocks.mono hle
    · exact h.list.lo.trans hle
    · simp only [frameAddr, pmmStart, pageSize]
      omega
    · exact frameAddr_mod _
  · rw [he] at hr
    cases hr

/-- **`vbrk`** keeps the invariant. -/
theorem MmuOk.vbrk (h : MmuOk img x n tbl bs) {a r : Nat} {s' : State Mmu}
    (hc : CleanStep x (.vbrk a)) (hr : vbrk img a x.st = .ok r s') :
    ∃ n', MmuOk img ⟨s', x.live⟩ n' tbl bs := by
  unfold Kfs.vbrk at hr
  split at hr
  · cases hr
    exact ⟨n, h⟩
  rw [get_bind_apply] at hr
  split at hr
  · cases hr
    exact ⟨n, h⟩
  obtain ⟨_, s₁, hloop, hr⟩ := bind_eq_ok.mp hr
  cases hr
  -- the table stays above the region, so it is not where a round maps
  have hround :
      ∀ {t t' : State Mmu} {r : Unit ⊕ Unit}, (∃ m, n ≤ m ∧ MmuOk img ⟨t, x.live⟩ m tbl bs) →
      Kfs.vbrkStep img a () t = .ok r t' → ∃ m, n ≤ m ∧ MmuOk img ⟨t', x.live⟩ m tbl bs := by
    rintro t t' r ⟨m, hm, ht⟩ hs
    have hlast : t.vmem.vmemCurrent = frameAddr m := ht.last
    have hoff : frameAddr m < a → tbl ≠ some m := by
      rintro hlt rfl
      refine hc (h.walk.tableIn ?_ hlt)
      rw [h.last]
      exact frameAddr_mono hm
    obtain ⟨m', hm', ht'⟩ := ht.vbrkStep hoff hs
    exact ⟨m', hm.trans hm', ht'⟩
  obtain ⟨m, -, hm⟩ := iterate_inv (fun _ t => ∃ m, n ≤ m ∧ MmuOk img ⟨t, x.live⟩ m tbl bs)
    (fun _ t => ∃ m, n ≤ m ∧ MmuOk img ⟨t, x.live⟩ m tbl bs)
    (fun _ _ _ _ hI hs => hround hI hs) (fun _ _ _ _ hI hs => hround hI hs) hloop
    ⟨n, Nat.le_refl n, h⟩
  exact ⟨m, hm⟩

/-- **The page test** keeps the invariant. -/
theorem MmuOk.pageops (h : MmuOk img x n tbl bs) {r : Option PageOps} {s' : State Mmu}
    (hr : cmdPageOps img x.st = .ok r s') : ∃ tbl', MmuOk img ⟨s', x.live⟩ n tbl' bs := by
  rcases cmdPageOps_low h.walk with ⟨r', k, p, d, he, hinv, -, hsame⟩ | ⟨-, err, s₁, he⟩
  swap
  · rw [he] at hr
    cases hr
  rw [he] at hr
  injection hr with _ hr
  subst hr
  refine ⟨some k, hinv, h.last, h.list.same rfl fun y hy => hsame y ?_, h.live⟩
  have hlo := img.pdLo
  have hlo' := img.ptLo
  have hpd := img.pdHi
  have hpt := img.ptHi
  have hlast := h.last
  have hge := h.list.lo
  simp only [vmemWindow, kvmemStart] at hy hge
  rintro ((hx | hx) | hx) <;> omega

/-- **`vfree`** of a live pointer keeps the invariant. -/
theorem MmuOk.vfree (h : MmuOk img x n tbl bs) {p : Nat} {s' : State Mmu} (hp : p ∈ x.live)
    (hr : vfree p x.st = .ok () s') : ∃ bs', MmuOk img ⟨s', x.live.erase p⟩ n tbl bs' := by
  obtain ⟨b, hb, hf, rfl⟩ := h.live p hp
  obtain ⟨pre, post, rfl⟩ := List.append_of_mem hb
  obtain ⟨d, hv, hinv, hsame, -⟩ := vfree_spec physData_isData h.list (h.plain h.list.hi) hf
  rw [hv] at hr
  injection hr with _ hs
  subst hs
  refine ⟨_, h.walk.setPhys fun y hy => hsame y ?_, h.last, hinv, h.live.release⟩
  rintro ⟨c, hcb, h1, h2⟩
  have := h.list.mem hcb
  have hlast := h.last
  rcases h.walk.off_region hy with hy | hy <;> omega

/-- **A clean step of the allocator** keeps the invariant and makes no table. -/
theorem WalkStep.ok_same {y : VmemSys Mmu} {op : WalkOp} (h : MmuOk img x n tbl bs)
    (hop : op ≠ .pageops) (hc : CleanStep x op) (hs : WalkStep img x op y) :
    ∃ n' bs', MmuOk img y n' tbl bs' := by
  obtain ⟨s', live'⟩ := y
  cases op with
  | vmalloc r =>
    obtain ⟨-, p, hr, rfl⟩ := hs
    by_cases hr0 : r = 0
    · subst hr0
      cases hr
      exact ⟨n, bs, h⟩
    · exact h.vmalloc hr0 hc hr
  | vfree p =>
    obtain ⟨-, hr, rfl⟩ := hs
    rcases hc with rfl | hp
    · cases hr
      exact ⟨n, bs, h.walk, h.last, h.list, fun q hq => h.live q (Finset.mem_of_mem_erase hq)⟩
    · obtain ⟨bs', h'⟩ := h.vfree hp hr
      exact ⟨n, bs', h'⟩
  | vbrk a =>
    obtain ⟨-, ⟨r, hr⟩, rfl⟩ := hs
    obtain ⟨n', h'⟩ := h.vbrk hc hr
    exact ⟨n', bs, h'⟩
  | pageops => exact absurd rfl hop

/-- **Every clean step** keeps the invariant. -/
theorem WalkStep.ok {x y : VmemSys Mmu} {op : WalkOp} (h : ∃ n tbl bs, MmuOk img x n tbl bs)
    (hc : CleanStep x op) (hs : WalkStep img x op y) : ∃ n tbl bs, MmuOk img y n tbl bs := by
  obtain ⟨n, tbl, bs, h⟩ := h
  by_cases hop : op = .pageops
  · subst hop
    obtain ⟨s', live'⟩ := y
    obtain ⟨⟨r, hr⟩, rfl⟩ := hs
    obtain ⟨tbl', h'⟩ := h.pageops hr
    exact ⟨n, tbl', bs, h'⟩
  · obtain ⟨n', bs', h'⟩ := WalkStep.ok_same h hop hc hs
    exact ⟨n', tbl, bs', h'⟩

end Step

theorem WalkStart.ok {x : VmemSys Mmu} (h : WalkStart img x) : MmuOk img x 512 none [] := by
  obtain ⟨s, live⟩ := x
  obtain ⟨m, hoff, hr, rfl⟩ := h
  obtain ⟨s', hr', hinv, hv⟩ := memoryInit_low img hoff
  rw [hr'] at hr
  injection hr with _ hs
  subst hs
  refine ⟨hinv, by rw [hv]; rfl, ⟨?_, ⟨.nil, by simp, by simp, .nil, by simp⟩, ?_, ?_, ?_⟩,
    by simp [VLive]⟩ <;> show _ <;> rw [hv]
  · rfl
  · decide
  · rfl

/-- **Clean runs keep the walks together.** In every run from `memory_init` whose steps
are clean the software and the hardware walk agree in every state. -/
theorem page_walks_agree {x : VmemSys Mmu} {tr : List (WalkOp × VmemSys Mmu)}
    (hx : WalkStart img x) (ht : Trace (WalkStep img) x tr) (hc : Meets CleanStep x tr) :
    WalksAgree img x.st ∧ ∀ p ∈ tr, WalksAgree img p.2.st := by
  have hok : ∃ n tbl bs, MmuOk img x n tbl bs := ⟨_, _, _, hx.ok⟩
  refine ⟨hx.ok.walk.agree, fun p hp => ?_⟩
  obtain ⟨n, tbl, bs, h⟩ := Trace.inv_all (I := fun x => ∃ n tbl bs, MmuOk img x n tbl bs)
    (fun _ _ _ hI hc hs => hs.ok hI hc) ht hc hok p hp
  exact h.walk.agree

/-! ## An expansion over a table -/

/-- While frame `n` holds the test page's table, frame `n + 1` is the lowest that is free. -/
theorem WalkInv.alloc_past_table {s : State Mmu} {n : Nat} (h : WalkInv img s n (some n))
    (hn : n + 1 < 2304) :
    pmmAllocPage s = .ok (frameAddr (n + 1)) { s with pmm := s.pmm.take (n + 1) } := by
  refine h.used.alloc_lowest hn ?_ fun j hj => ?_
  · rintro (h1 | h1)
    · omega
    · injection h1
      omega
  · by_cases hjn : j = n
    · exact .inr (by rw [hjn])
    · exact .inl (by omega)

/-- Mapping the page of the test page's table to the next frame parts the walks: the
software walk still writes at the table's frame, the hardware takes the new one. -/
theorem remapped_table_parts {s s' : State Mmu} {n : Nat} (h : WalkInv img s n (some n))
    (hn : n + 1 < 2304) (hcr0 : s'.mem.cr0 = s.mem.cr0) (hcr3 : s'.mem.cr3 = s.mem.cr3)
    (hd : s'.mem.phys = store32 s.mem.phys (img.pageTables + 4 * (frameAddr n / 4096))
      (frameAddr (n + 1) + 3)) : ¬ WalksAgree img s' := by
  intro hag
  have hpd := img.pdHi
  have hpt := img.ptHi
  have hap := img.apart
  have hal := img.ptAligned
  have hlow := h.tables.low
  have hmod := frameAddr_mod n
  have hmod' := frameAddr_mod (n + 1)
  have hva : frameAddr n < 0xC00000 := by
    simp only [frameAddr, pmmStart, pageSize]
    omega
  -- the directory is as before, the entry of the table's page is not
  have hpde : ∀ i, i < 1024 → pdeAt img s'.mem.phys i = pdeAt img s.mem.phys i := by
    intro i hi
    refine pdeAt_congr (fun x h1 h2 => ?_) hi
    rw [hd]
    apply store32_other
    omega
  have hi : pdIndex (frameAddr n) < 3 := by
    unfold pdIndex
    omega
  have hent : entryAt img s'.mem.phys (frameAddr n) = frameAddr (n + 1) + 3 := by
    unfold entryAt
    rw [if_pos ((present_congr (hpde _ (by omega))).mpr (hlow.present hi)),
      tableOf_congr (hpde _ (by omega)), hlow.tableOf hi]
    rw [show img.pageTables + 4096 * pdIndex (frameAddr n) + 4 * ptIndex (frameAddr n) =
      img.pageTables + 4 * (frameAddr n / 4096) by unfold pdIndex ptIndex; omega, hd]
    exact load32_store32 (by simp only [frameAddr, pmmStart, pageSize]; omega)
  have hon : s'.mem.pagingOn = true := by
    unfold Mmu.pagingOn
    rw [hcr0]
    exact h.walking.on
  have hw : Walking img s'.mem := ⟨hon, hcr3.trans h.walking.cr3⟩
  have hdir : s'.mem.dirEntry 64 = frameAddr n + 7 := by
    rw [hw.dirEntry]
    exact (hpde 64 (by omega)).trans h.tables.testPde
  have hself := hag.self 64 (by omega)
  rw [hdir, and_pagePresent, and_maskPage _ (by omega)] at hself
  have hT : frameAddr n + 7 - (frameAddr n + 7) % 4096 = frameAddr n := by omega
  rw [hT] at hself
  have heq := hself (by omega) 0 (by omega) false
  rw [Nat.add_zero, hw.translate (by omega) false (by rw [hpde _ (by omega), hlow.pde _ hi]; omega)
    (by rw [hent]; omega), hent] at heq
  injection heq with heq
  simp only [frameAddr, pageSize] at heq hmod hmod'
  omega

/-- **A round of `vbrk` over the test page's table** maps the table's page to the next
frame, and the walks part. -/
theorem vbrkStep_over_table {s : State Mmu} {n a : Nat} (h : WalkInv img s n (some n))
    (hlast : s.vmem.vmemCurrent = frameAddr n) (ha : frameAddr n < a) (hn : n + 1 < 2304) :
    ∃ s', vbrkStep img a () s = .ok (.inl ()) s' ∧ s'.vmem.vmemCurrent = frameAddr (n + 1) ∧
      ¬ WalksAgree img s' := by
  have hva : frameAddr n < 0xC00000 := by
    simp only [frameAddr, pmmStart, pageSize]
    omega
  have hr := h.alloc_past_table hn
  have hmap := vmmMapPage_low (s := { s with pmm := s.pmm.take (n + 1) }) h.walking h.tables.low hva
    (frameAddr (n + 1)) pageWrite
  rw [mapEntry_frame (frameAddr_mod _)
    (by simp only [frameAddr, pmmStart, pageSize]; omega)] at hmap
  have hnext := vbrkStep_next (a := a) (by rw [hlast]; exact ha) hr (by rw [hlast]; exact hmap)
  refine ⟨_, hnext, ?_, remapped_table_parts h hn rfl rfl rfl⟩
  rw [State.grown_current]
  show add32 s.vmem.vmemCurrent pageSize = _
  rw [hlast]
  exact frameAddr_succ (by omega)

/-- Memory all zero and paging off. -/
def Mmu.blank : Mmu := ⟨fun _ => 0, 0, 0⟩

/-- `pageops` after start-up leaves its table in frame 513, at `0x301000`. -/
theorem walkStart_pageops (img : Image) :
    ∃ s s₁, WalkStart img ⟨s, ∅⟩ ∧ WalkStep img ⟨s, ∅⟩ .pageops ⟨s₁, ∅⟩ ∧
      MmuOk img ⟨s₁, ∅⟩ 512 (some 513) [] := by
  obtain ⟨s, hr, -⟩ := memoryInit_low img (m := Mmu.blank) (by decide)
  have hx : WalkStart img ⟨s, ∅⟩ := ⟨_, by decide, hr, rfl⟩
  have hok := hx.ok
  rcases cmdPageOps_low hok.walk with ⟨r, k, p, d, he, hinv, htbl, hsame⟩ | ⟨hle, -⟩
  swap
  · omega
  obtain ⟨n', hok'⟩ := hok.pageops he
  have hk : k = 513 := by
    rcases htbl with h | ⟨-, h⟩
    · cases h
    · exact h
  subst hk
  exact ⟨s, _, hx, ⟨⟨r, he⟩, rfl⟩, hinv, hok'.last, hok'.list, hok'.live⟩

theorem vbrk_one {s : State Mmu} (h : MmuOk img ⟨s, ∅⟩ 512 (some 513) []) {a : Nat}
    (ha : 0x300000 < a) :
    ∃ s', vbrkStep img a () s = .ok (.inl ()) s' ∧ MmuOk img ⟨s', ∅⟩ 513 (some 513) [] := by
  have hlast : s.vmem.vmemCurrent = frameAddr 512 := h.last
  have hlt : s.vmem.vmemCurrent < a := by
    rw [hlast]
    exact ha
  rcases backPage_low h.walk (by simp) with ⟨-, h1, h2, hinv⟩ | ⟨hn, -⟩
  swap
  · omega
  have hr := vbrkStep_next hlt h1 (by rw [hlast]; exact h2)
  obtain ⟨n', -, hok⟩ := h.vbrkStep (fun _ => by simp) hr
  have hcur := (State.grown_current { s with pmm := s.pmm.take 512 }).trans
    ((congrArg (add32 · pageSize) hlast).trans (frameAddr_succ (by omega)))
  have hn' : n' = 513 := by
    have := hok.last.symm.trans hcur
    simp only [frameAddr, pageSize] at this
    omega
  subst hn'
  exact ⟨_, hr, hok⟩

theorem vbrk_loop {s s' : State Mmu} {a : Nat} (h0 : kvmemStart ≤ a)
    (h1 : s.vmem.vmemCurrent ≤ a) (hloop : iterate .outOfFuel (vbrkStep img a) maxRounds () s =
      .ok () s') : vbrk img a s = .ok s'.vmem.vmemCurrent s' := by
  unfold vbrk
  rw [if_neg (by simp only [kvmemStart] at h0; omega), get_bind_apply]
  simp only [show ¬ a < kvmemStart by omega, show ¬ a < s.vmem.vmemCurrent by omega, decide_false,
    Bool.or_self, Bool.false_eq_true, ↓reduceIte]
  rw [bind_of_ok hloop]
  rfl

/-- `pageops`, then a `vbrk` that stops below its table. -/
theorem page_walks_agree_pageops :
    ∃ x y z, WalkStart Image.readme x ∧
      Trace (WalkStep Image.readme) x [(.pageops, y), (.vbrk 0x301000, z)] ∧
      Meets CleanStep x [(.pageops, y), (.vbrk 0x301000, z)] ∧ WalksAgree Image.readme z.st := by
  obtain ⟨s, s₁, hx, hstep₁, hok₁⟩ := walkStart_pageops Image.readme
  obtain ⟨s₂, hround, hok₂⟩ := vbrk_one hok₁ (a := 0x301000) (by decide)
  have hcur₁ : s₁.vmem.vmemCurrent = frameAddr 512 := hok₁.last
  have hcur₂ : s₂.vmem.vmemCurrent = frameAddr 513 := hok₂.last
  obtain ⟨k, hk⟩ : ∃ k, maxRounds = k + 1 + 1 := ⟨maxRounds - 2, by have := maxRounds_eq; omega⟩
  have hvbrk : vbrk Image.readme 0x301000 s₁ = .ok s₂.vmem.vmemCurrent s₂ := by
    refine vbrk_loop (by decide) (by rw [hcur₁]; decide) ?_
    rw [hk, iterate_next hround, iterate_done (vbrkStep_done (by rw [hcur₂]; decide))]
  have htr : Trace (WalkStep Image.readme) ⟨s, ∅⟩
      [(.pageops, ⟨s₁, ∅⟩), (.vbrk 0x301000, ⟨s₂, ∅⟩)] :=
    ⟨hstep₁, ⟨by decide, ⟨_, hvbrk⟩, rfl⟩, trivial⟩
  have hclean : Meets CleanStep (⟨s, ∅⟩ : VmemSys Mmu)
      [(.pageops, ⟨s₁, ∅⟩), (.vbrk 0x301000, ⟨s₂, ∅⟩)] := by
    refine ⟨trivial, hok₁.walk.not_tableIn (by rw [hok₁.last]; decide) ?_, trivial⟩
    rintro k hk
    cases hk
    decide
  exact ⟨_, ⟨s₁, ∅⟩, ⟨s₂, ∅⟩, hx, htr, hclean,
    (page_walks_agree hx htr hclean).2 (.vbrk 0x301000, ⟨s₂, ∅⟩) (by simp)⟩

/-- `pageops`, then a `vbrk` over its table. -/
theorem page_walks_part :
    ∃ x y z, WalkStart Image.readme x ∧
      Trace (WalkStep Image.readme) x [(.pageops, y), (.vbrk 0x302000, z)] ∧
      ¬ WalksAgree Image.readme z.st := by
  obtain ⟨s, s₁, hx, hstep₁, hok₁⟩ := walkStart_pageops Image.readme
  obtain ⟨s₂, hround, hok₂⟩ := vbrk_one hok₁ (a := 0x302000) (by decide)
  obtain ⟨s₃, hround', hcur₃, hpart⟩ := vbrkStep_over_table hok₂.walk hok₂.last (a := 0x302000)
    (by decide) (by decide)
  have hcur₁ : s₁.vmem.vmemCurrent = frameAddr 512 := hok₁.last
  obtain ⟨k, hk⟩ : ∃ k, maxRounds = k + 1 + 1 + 1 := ⟨maxRounds - 3, by have := maxRounds_eq; omega⟩
  have hvbrk : vbrk Image.readme 0x302000 s₁ = .ok s₃.vmem.vmemCurrent s₃ := by
    refine vbrk_loop (by decide) (by rw [hcur₁]; decide) ?_
    rw [hk, iterate_next hround, iterate_next hround',
      iterate_done (vbrkStep_done (by rw [hcur₃]; decide))]
  exact ⟨_, ⟨s₁, ∅⟩, ⟨s₃, ∅⟩, hx, ⟨hstep₁, ⟨by decide, ⟨_, hvbrk⟩, rfl⟩, trivial⟩, hpart⟩

end Kfs
