import Kfs.MmuRun

/-!
# A block split over the page directory

`vmalloc` splits a free block where the request ends, and takes the size in its
header at its word. A request close to `2 ^ 32` leaves a block with such a size on
a single page. The next request is served from it, and the header of what is
split off goes to an address that wraps around: for the right size, into the page
directory. The word `free = 1` in slot 1 makes a present table at address 0 of it,
and from then on `virt_to_pte` answers null for the slot's first page.
-/

namespace Kfs

open Kfs.Lib

variable {img : Image}

/-! ## The first slot -/

/-- The first 4 MB mapped to themselves: all that the kernel's own memory needs. -/
structure FirstSlot (img : Image) (t : Mem) : Prop where
  pde : pdeAt img t 0 = img.pageTables + 3
  pte : ∀ j, j < 1024 → load32 t (img.pageTables + 4 * j) = j * 4096 + 3

def FirstBytes (img : Image) (x : Nat) : Prop :=
  img.pageDirectory ≤ x ∧ x < img.pageDirectory + 4 ∨ img.pageTables ≤ x ∧ x < img.pageTables + 4096

theorem IdentityTables.first {t : Mem} (h : IdentityTables img t) : FirstSlot img t where
  pde := h.pde 0 (by omega)
  pte j hj := by
    have := h.pte 0 j (by omega) hj
    simpa using this

theorem FirstSlot.congr {t t' : Mem} (h : FirstSlot img t)
    (ht : ∀ x, FirstBytes img x → t' x = t x) :
    FirstSlot img t' where
  pde := by
    rw [← h.pde]
    exact load32_congr fun x h1 h2 => ht x (.inl ⟨by omega, by omega⟩)
  pte j hj := by
    rw [← h.pte j hj]
    exact load32_congr fun x h1 h2 => ht x (.inr ⟨by omega, by omega⟩)

theorem Walking.translate_first {m : Mmu} (h : Walking img m) (hf : FirstSlot img m.phys) {v : Nat}
    (hv : v < 0x400000) (w : Bool) : m.translate w v = .ok v := by
  have hal := img.ptAligned
  have hi : pdIndex v = 0 := by
    unfold pdIndex
    omega
  have hpde := hf.pde
  have hent : entryAt img m.phys v = v - v % 4096 + 3 := by
    have hp : Present img m.phys 0 := by
      unfold Present
      omega
    have ht : tableOf img m.phys 0 = img.pageTables := by
      unfold tableOf
      omega
    unfold entryAt
    rw [hi, if_pos hp, ht, hf.pte _ (ptIndex_lt v)]
    unfold ptIndex
    omega
  exact h.translate_self (by omega) (by rw [hi]; omega) hent w

/-- Memory below 4 MB is plain as long as the first slot's entries are left alone. -/
theorem plain_first {m : Mmu} (h : Walking img m) (hf : FirstSlot img m.phys) {W : Nat → Prop}
    (hW : ∀ x, W x → x < 0x400000 ∧ ¬ FirstBytes img x) : Plain physData m W := by
  refine plain_identity (.inl rfl) (by omega) hW fun d hd v hv w => ?_
  exact Walking.translate_first (m := { m with phys := d }) ⟨h.on, h.cr3⟩ (hf.congr hd) hv w

/-! ## A header that wraps around -/

section Split

variable {M : Type} [Bus M] {P : Port M} {s : State M}

/-- The memory after the block at `a` of size `z` has served `r` bytes and left a block at `n`. -/
def splitTo (m : Mem) (a n z r : Nat) : Mem :=
  store32 (store32
    (store32 (store32 (store32 (store32 (store32 m n (z - r - 20)) (n + 8) 1) (n + 16)
    (load32 m (a + 16))) a r) (a + 16) n) (a + 8) 0) (a + 12) vmemMagicAllocated

theorem vmemServe_far (hP : P.IsData) {W : Nat → Prop} (hp : Plain P s.mem W) {a n z r : Nat}
    (hz : load32 (P.view s) a = z) (hr : r + 36 ≤ z) (hn : add32 (add32 a vmemHeader) r = n)
    (hna : n + 20 ≤ a) (ha : a + 20 ≤ 2 ^ 32) (hWa : ∀ x, a ≤ x → x < a + 20 → W x)
    (hWn : ∀ x, n ≤ x → x < n + 20 → ¬ (n + 4 ≤ x ∧ x < n + 8) → W x) :
    vmemServe a r s = .ok () (P.put s (splitTo (P.view s) a n z r)) := by
  have hlt := load32_lt (P.view s) a
  rw [hz] at hlt
  -- accesses to the two headers
  have hA : ∀ {b}, a ≤ b → b + 4 ≤ a + 20 → ∀ x, b ≤ x → x < b + 4 → W x :=
    fun h1 h2 x _ _ => hWa x (by omega) (by omega)
  have hN : ∀ {b}, b = n ∨ n + 8 ≤ b ∧ b ≤ n + 16 → ∀ x, b ≤ x → x < b + 4 → W x :=
    fun hb x _ _ => hWn x (by omega) (by omega) (by omega)
  have hst : ∀ {d b} v, SameOff W (P.view s) d → b + 4 ≤ a + 20 → (∀ x, b ≤ x → x < b + 4 → W x) →
      st b v (P.put s d) = .ok () (P.put s (store32 d b v)) :=
    fun v hd hb hW => hp.st hP hd (by omega) hW v
  have hneed : add32 (add32 r vmemHeader) 16 = r + 36 := by
    simp only [vmemHeader, add32]
    omega
  have hrest : sub32 (sub32 z r) vmemHeader = z - r - 20 := by
    simp only [vmemHeader, sub32]
    omega
  have h0 := SameOff.refl W (P.view s)
  have e1 := hst (b := n) (z - r - 20) h0 (by omega) (hN (.inl rfl))
  rw [P.put_view] at e1
  have s1 := h0.store32 (v := z - r - 20) (hN (.inl rfl))
  have s2 := s1.store32 (v := 1) (hN (b := n + 8) (.inr ⟨by omega, by omega⟩))
  have hq : load32 (store32 (store32 (P.view s) n (z - r - 20)) (n + 8) 1) (a + 16) =
      load32 (P.view s) (a + 16) := by
    rw [load32_store32_ne (by omega), load32_store32_ne (by omega)]
  have s3 :=
    s2.store32 (v := load32 (P.view s) (a + 16)) (hN (b := n + 16) (.inr ⟨by omega, by omega⟩))
  have s4 := s3.store32 (v := r) (hA (Nat.le_refl a) (by omega))
  have s5 := s4.store32 (v := n) (hA (b := a + 16) (by omega) (by omega))
  have s6 := s5.store32 (v := 0) (hA (b := a + 8) (by omega) (by omega))
  unfold vmemServe splitTo
  rw [bind_of_ok (hp.ld_view hP (by omega) (hA (Nat.le_refl a) (by omega))), hz, hneed]
  simp only [ge_iff_le, hr, ↓reduceIte, hn, hrest]
  rw [bind_of_ok e1, bind_of_ok (hst 1 s1 (by omega) (hN (b := n + 8) (.inr ⟨by omega, by omega⟩))),
    bind_of_ok (hp.ld hP s2 (by omega) (hA (by omega) (by omega))), hq,
    bind_of_ok (hst _ s2 (by omega) (hN (b := n + 16) (.inr ⟨by omega, by omega⟩))),
    bind_of_ok (hst _ s3 (by omega) (hA (Nat.le_refl a) (by omega))),
    bind_of_ok (hst _ s4 (by omega) (hA (by omega) (by omega))),
    bind_of_ok (hst _ s5 (by omega) (hA (by omega) (by omega))),
    hst _ s6 (by omega) (hA (by omega) (by omega))]

end Split

/-! ## A block that claims all of memory -/

/-- With its header and the page slack this wraps around to one page. -/
def hugeSize : Nat := 0xFFFFFFF8

/-- The list is one block on a single page that says it has `hugeSize` bytes, in a region
that ends at frame `n`. -/
structure HugeBlock (img : Image) (s : State Mmu) (n : Nat) (free : Bool) : Prop where
  walk : WalkInv img s n none
  current : s.vmem.vmemCurrent = frameAddr n
  room : 513 ≤ n
  list : s.vmem.vmemList = kvmemStart
  header : vNode.holds s.mem.phys ⟨kvmemStart, hugeSize, free, some 4076⟩
  next : load32 s.mem.phys (kvmemStart + 16) = 0

theorem vmallocMap_one {s : State Mmu} {n : Nat} (h : WalkInv img s n none) (hn : n < 2304) :
    vmallocMap img (frameAddr n) (frameAddr n + pageSize) s =
      .ok () { s with pmm := s.pmm.take n } ∧
      WalkInv img { s with pmm := s.pmm.take n } (n + 1) none := by
  have hcount : (frameAddr n + pageSize - frameAddr n + (pageSize - 1)) / pageSize = 1 := by
    rw [Nat.add_sub_cancel_left]
    rfl
  have hva : frameAddr n + 0 * pageSize = frameAddr n := by rw [Nat.zero_mul, Nat.add_zero]
  rcases backRound_low h (by simp) hva
    (kpanicFatal "vmalloc: failed to allocate physical page\n" [])
    (kpanicFatal "vmalloc: failed to map page\n" []) with ⟨hinv, hr⟩ | ⟨hle, -⟩
  · refine ⟨?_, hinv⟩
    unfold vmallocMap
    rw [hcount]
    exact (bind_of_ok hr).trans rfl
  · omega

theorem vmalloc_huge {s : State Mmu} (h : MmuOk img ⟨s, ∅⟩ 512 none []) :
    ∃ s', vmalloc img hugeSize s = .ok (kvmemStart + 20) s' ∧ HugeBlock img s' 513 false := by
  have hcur : s.vmem.vmemCurrent = frameAddr 512 := h.last
  have hround : round8 hugeSize = hugeSize := by decide
  have hpages : vmemPages hugeSize = 1 := by decide
  obtain ⟨hmap, hw⟩ := vmallocMap_one h.walk (by decide)
  have happ := vmemAppend_header physData_isData (s := { s with pmm := s.pmm.take 512 }) (l := 0)
    (r := hugeSize) (k := 1) (c := frameAddr 512) (e := frameAddr 512 + pageSize)
    (hw.plain (by decide)) hcur.symm (by decide) (by decide) (by decide) (by decide)
  obtain ⟨d, hd⟩ : ∃ d, d = newHeader s.mem.phys (frameAddr 512) hugeSize (1 * 4096 - 20) :=
    ⟨_, rfl⟩
  have hrun : vmalloc img hugeSize s = linkAppended 0 (frameAddr 512) 1 (frameAddr 512 + pageSize)
      (physData.put { s with pmm := s.pmm.take 512 } d) := by
    rw [vmalloc_full physData_isData img h.list (h.plain h.list.hi) (by decide) (by simp),
      hround, hd]
    unfold vmallocExpand
    rw [get_bind_apply]
    simp only [hcur, hpages]
    rw [if_neg (by decide)]
    exact (bind_of_ok hmap).trans happ
  rw [linkAppended_first] at hrun
  obtain ⟨-, -, hhdr, hnext⟩ := newHeader_seg (m := s.mem.phys) (e := frameAddr 512) (r := hugeSize)
    (c := 1 * 4096 - 20) (by decide) (by decide) (by decide)
  rw [← hd] at hhdr hnext
  have hw' : WalkInv img (State.setPhys { s with pmm := s.pmm.take 512 } d) 513 none := by
    have hpd := img.pdHi
    have hpt := img.ptHi
    refine hw.setPhys fun x hx => ?_
    rw [hd]
    refine newHeader_same s.mem.phys _ _ _ x fun hin => ?_
    simp only [frameAddr, pmmStart, pageSize] at hin
    rcases hx with (hx | hx) | ⟨k, hk, -⟩
    · omega
    · omega
    · cases hk
  exact ⟨_, hrun, hw'.congr rfl rfl, rfl, Nat.le_refl _, rfl, hhdr, hnext⟩

section Huge

variable {s : State Mmu} {n : Nat}

/-- The block freed; its capacity ends where nothing starts. -/
theorem vfree_huge (h : HugeBlock img s n false) :
    ∃ s', vfree (kvmemStart + 20) s = .ok () s' ∧ HugeBlock img s' n true := by
  have hroom := frameAddr_mono h.room
  have hend : frameAddr n ≤ 0xC00000 := (frameAddr_mono h.walk.le).trans (by decide)
  have hroom : kvmemStart + 4096 ≤ frameAddr n := hroom
  have hplain := h.walk.plain hend
  have hin : ∀ x, kvmemStart ≤ x → x < kvmemStart + 20 → vmemWindow (frameAddr n) x :=
    fun x h1 h2 => .inr ⟨h1, by omega⟩
  have hmagic : load32 s.mem.phys (kvmemStart + 12) = vmemMagicAllocated := h.header.2.2.1 rfl
  have hsame := vmarked_same s.mem.phys kvmemStart
  have hheader :
      vNode.holds (vmarked s.mem.phys kvmemStart) ⟨kvmemStart, hugeSize, true, some 4076⟩ :=
    vmarked_holds (b := ⟨kvmemStart, hugeSize, false, some 4076⟩) h.header
  have hnext := (vmarked_next s.mem.phys kvmemStart).trans h.next
  have hfree := vfree_eq physData_isData hplain hmagic (by decide) hin
  have hmerge := vfreeMerge_test (s := physData.put s (vmarked s.mem.phys kvmemStart))
    (x := ⟨kvmemStart, hugeSize, true, some 4076⟩) physData_isData
    (hplain.put (hsame.mono fun x hx => hin x hx.1 hx.2)) h.list hheader rfl (by decide) hin hnext
    (fun _ y _ _ => .inl (by omega)) (by decide)
  refine ⟨_, hfree.trans (hmerge.trans ?_), h.walk.setPhys fun x hx => hsame x fun hx' => ?_,
    h.current,
    h.room, h.list, hheader, hnext⟩
  · rw [show decide (kvmemStart + 20 + 4076 = 0) = false from rfl, Bool.and_false]
    rfl
  · rcases h.walk.off_region hx with hx | hx
    · simp only [kvmemStart] at hx'
      omega
    · omega

variable (img) in
/-- The request whose split leaves a header just below the second entry of the directory. -/
def overRequest : Nat := img.pageDirectory + 0xFFCFFFE8

/-- The second slot of the directory names a table at address 0. -/
structure NullSlot (img : Image) (m : Mmu) : Prop where
  walking : Walking img m
  first : FirstSlot img m.phys
  null : pdeAt img m.phys 1 = 1

/-- **The split over the directory.** -/
theorem vmalloc_over (h : HugeBlock img s n true) :
    ∃ s', vmalloc img (overRequest img) s = .ok (kvmemStart + 20) s' ∧ NullSlot img s'.mem ∧
      s'.pmm = s.pmm ∧ s'.vmem = s.vmem := by
  have hpd := img.pdHi
  have hlo := img.pdLo
  have hal := img.pdAligned
  have hap := img.apart
  have hpt := img.ptHi
  have hend : frameAddr n ≤ 0xC00000 := (frameAddr_mono h.walk.le).trans (by decide)
  have hroom : kvmemStart + 4096 ≤ frameAddr n := frameAddr_mono h.room
  obtain ⟨d, hd⟩ : ∃ d, img.pageDirectory = d + 4 := ⟨img.pageDirectory - 4, by omega⟩
  obtain ⟨r, hr⟩ : ∃ r, r = overRequest img := ⟨_, rfl⟩
  have hr' : r = d + 0xFFCFFFEC := by
    rw [hr]
    unfold overRequest
    omega
  have hround : round8 r = r := by
    rw [round8_eq (by omega)]
    omega
  have hfirst := h.walk.tables.low.first
  have hplain := plain_first h.walk.walking hfirst (W := fun x => x < 0x400000 ∧ ¬ FirstBytes img x)
    fun x hx => hx
  have hserve := vmemServe_far (s := s) (a := kvmemStart) (n := d) (z := hugeSize) (r := r)
    physData_isData hplain h.header.1 (by simp only [hugeSize]; omega)
    (by simp only [add32, kvmemStart, vmemHeader]; omega) (by simp only [kvmemStart]; omega)
    (by decide)
    (fun x h1 h2 => by
      simp only [kvmemStart] at h1 h2
      refine ⟨by omega, ?_⟩
      rintro (hx | hx) <;> omega)
    (fun x h1 h2 h3 => by
      refine ⟨by omega, ?_⟩
      rintro (hx | hx) <;> omega)
  have hinside : kvmemStart + 20 ≤ frameAddr n := Nat.le_trans (by decide) hroom
  have hfits := vmemFits_eq (r := r) physData_isData (h.walk.plain hend) h.header (Nat.le_refl _)
    hinside hend
  have hstep : vmallocStep r (0, kvmemStart) s = .ok (.inr (.found (kvmemStart + 20)))
      (physData.put s (splitTo s.mem.phys kvmemStart d hugeSize r)) := by
    have hfit : VBlk.Fits r ⟨kvmemStart, hugeSize, true, some 4076⟩ := by
      refine ⟨rfl, ?_⟩
      simp only [hugeSize]
      omega
    unfold vmallocStep
    simp only [show kvmemStart ≠ 0 by decide, ↓reduceIte]
    rw [bind_of_ok hfits]
    simp only [hfit, decide_true, ↓reduceIte]
    exact (bind_of_ok hserve).trans rfl
  refine ⟨physData.put s (splitTo s.mem.phys kvmemStart d hugeSize r), ?_,
    ⟨⟨h.walk.walking.on, h.walk.walking.cr3⟩, hfirst.congr fun x hx => ?_, ?_⟩, rfl, rfl⟩
  · obtain ⟨k, hk⟩ : ∃ k, maxRounds = k + 1 := ⟨maxRounds - 1, by have := maxRounds_eq; omega⟩
    rw [← hr]
    unfold vmalloc
    rw [if_neg (by omega), get_bind_apply, hround, h.list, hk]
    exact (bind_of_ok (iterate_done hstep)).trans rfl
  · show splitTo s.mem.phys kvmemStart d hugeSize r x = s.mem.phys x
    unfold splitTo
    simp only [kvmemStart]
    rw [store32_other, store32_other, store32_other, store32_other, store32_other, store32_other,
      store32_other] <;> rcases hx with hx | hx <;> omega
  · show load32 (splitTo s.mem.phys kvmemStart d hugeSize r) (img.pageDirectory + 4 * 1) = 1
    rw [show img.pageDirectory + 4 * 1 = d + 8 by omega]
    unfold splitTo
    simp only [kvmemStart]
    simp (disch := omega) only [load32_store32_ne, load32_store32]

end Huge

/-! ## A null entry pointer -/

/-- **The first page of the second slot** cannot be mapped any more: the walk answers null. -/
theorem NullSlot.vmmMapPage {s : State Mmu} (h : NullSlot img s.mem) (phys flags : Nat) :
    vmmMapPage img 0x400000 phys flags s = .ok (-1) s := by
  have hpd := img.pdHi
  have hi : pdIndex 0x400000 = 1 := by decide
  have hload : ReadsPde img s s.mem.phys 0x400000 := by
    unfold ReadsPde
    rw [hi]
    exact loadAt_mmu (.inr rfl) (by omega) fun i _ =>
      h.walking.translate_first h.first (by omega) false
  have hp : Present img s.mem.phys (pdIndex 0x400000) := by
    unfold Present
    rw [hi, h.null]
  have hwalk := virtToPte_present (by decide) hload hp true
  have hnull : tableOf img s.mem.phys (pdIndex 0x400000) + 4 * ptIndex 0x400000 = 0 := by
    unfold tableOf
    rw [hi, h.null]
    decide
  rw [hnull] at hwalk
  unfold Kfs.vmmMapPage
  rw [bind_of_ok hwalk]
  rfl

/-- A round of `vbrk` there panics, with frames left. -/
theorem NullSlot.vbrkStep {s : State Mmu} (h : NullSlot img s.mem) (hu : Used s.pmm (Held 768 none))
    (hcur : s.vmem.vmemCurrent = 0x400000) {a : Nat} (ha : 0x400000 < a) :
    ∃ s', vbrkStep img a () s = .error (.panic "vbrk: failed to map page\n" []) s' := by
  rcases hu.alloc with ⟨f, -, -, -, hr⟩ | ⟨hall, -⟩
  · have hmap := NullSlot.vmmMapPage (s := { s with pmm := s.pmm.take f }) h
      (pmmStart + f * pageSize)
      pageWrite
    refine ⟨{ s with pmm := s.pmm.take f }, ?_⟩
    unfold Kfs.vbrkStep
    rw [get_bind_apply, hcur, if_pos ha, bind_of_ok hr, bind_of_ok hmap]
    rfl
  · rcases hall 768 (by omega) with h768 | h768
    · omega
    · cases h768

end Kfs
