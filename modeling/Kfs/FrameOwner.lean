import Kfs.FrameRun

/-!
# No frame is lost

`FrameInv` says that every page of the heap and of the `vmalloc` region, and every
dynamic page table, has a frame of its own. Here is the other half: every frame in use
past the reserved megabyte belongs to one of these (`FramesOwned`), so the frames can be
counted (`FramesOwned.count_eq`). The mapping calls keep it, and so does a test that
takes a frame, maps it somewhere past the regions, and gives it back (`Lent`).
-/

namespace Kfs

open Kfs.Lib

variable {img : Image}

/-- Frame `k` is that of a page below `e`, or a dynamic page table. -/
def FrameOwned (img : Image) (t : Mem) (e k : Nat) : Prop :=
  (∃ v, Backed e v ∧ entryAt img t v = pmmStart + k * pageSize + 3) ∨
    ∃ i, 3 ≤ i ∧ i < 1024 ∧ Present img t i ∧ tableOf img t i = pmmStart + k * pageSize

/-- **Every frame in use has an owner**, for a region that ends at `e`. -/
structure FramesOwned (img : Image) (s : State Flat) (e : Nat) : Prop extends FrameInv img s e where
  total : s.pmm.totalPages = 2304
  owned : ∀ k, 256 ≤ k → k < 2304 → s.pmm.bit k = true → FrameOwned img s.mem.table e k

theorem FramesOwned.congr {s s' : State Flat} {e : Nat} (h : FramesOwned img s e)
    (hp : s'.pmm = s.pmm) (ht : s'.mem.table = s.mem.table) : FramesOwned img s' e where
  toFrameInv := h.toFrameInv.congr hp ht
  total := by
    rw [hp]
    exact h.total
  owned k := by
    rw [hp, ht]
    exact h.owned k

theorem FrameOwned.mono {t t' : Mem} {e e' k : Nat} (h : FrameOwned img t e k)
    (hent : ∀ v, Backed e v → Backed e' v ∧ entryAt img t' v = entryAt img t v)
    (htab : ∀ i, i < 1024 → Present img t i → Present img t' i ∧
      tableOf img t' i = tableOf img t i) :
    FrameOwned img t' e' k := by
  rcases h with ⟨v, hv, he⟩ | ⟨i, hi3, hi, hp, ht⟩
  · exact .inl ⟨v, (hent v hv).1, (hent v hv).2.trans he⟩
  · exact .inr ⟨i, hi3, hi, (htab i hi hp).1, (htab i hi hp).2.trans ht⟩

theorem Booted.framesOwned {s : State Flat} (h : Booted img s) : FramesOwned img s kvmemStart where
  toFrameInv := h.frameInv
  total := h.frames.total
  owned k hk _ hb := by
    rw [h.frames.bits, decide_eq_true_eq] at hb
    refine .inl ⟨pmmStart + k * pageSize, ⟨?_, ?_, ?_⟩, ?_⟩
    · simp only [pmmStart, pageSize]
      omega
    · simp only [pmmStart, pageSize, kheapStart]
      omega
    · simp only [pmmStart, pageSize, kvmemStart]
      omega
    · rw [h.identity _ (by simp only [pmmStart, pageSize]; omega),
        if_pos (by simp only [pmmStart, pageSize]; omega)]
      simp only [pmmStart, pageSize]
      omega

/-! ## Growing the region -/

theorem FramesOwned.grow {s s' : State Flat} {e k : Nat} {t : Mem} (h : FramesOwned img s e)
    (hm : MapsFresh img e s s' k t) : FramesOwned img s' (e + 4096) where
  toFrameInv := h.toFrameInv.grow hm
  total := by
    rw [hm.eq]
    exact (s.pmm.take_totalPages k).trans h.total
  owned j hj hj' hb := by
    have hhi := h.hi
    have hlo := h.lo
    rw [hm.eq] at hb ⊢
    change (s.pmm.take k).bit j = true at hb
    show FrameOwned img t (e + 4096) j
    rw [s.pmm.bit_take j (h.paging.pmm.lt_bits hm.lt)] at hb
    by_cases hjk : j = k
    · simp only [kvmemStart] at hlo
      refine .inl ⟨e, ⟨h.page, by simp only [kheapStart]; omega, by omega⟩, ?_⟩
      rw [hm.upd e (by omega), if_pos rfl, hjk]
    · rw [if_neg hjk] at hb
      refine (h.owned j hj hj' hb).mono (fun v hv => ?_) fun i hi hp =>
        ⟨(present_congr (hm.pde i hi)).mpr hp, tableOf_congr (hm.pde i hi)⟩
      obtain ⟨h1, h2, h3⟩ := hv
      have hpage := h.page
      exact ⟨⟨h1, h2, by omega⟩, by rw [hm.upd v (by omega), if_neg (by omega)]⟩

theorem vmallocMap_framesOwned {s s' : State Flat} {b e k : Nat} (h : FramesOwned img s b)
    (he : e = b + k * 4096) (hlim : e ≤ 0xC00000) (hr : vmallocMap img b e s = .ok () s') :
    FramesOwned img s' e := by
  have hcount : (e - b + (pageSize - 1)) / pageSize = k := by
    simp only [pageSize]
    omega
  unfold vmallocMap at hr
  rw [hcount] at hr
  have := forUp_inv (fun i t => FramesOwned img t (b + i * 4096)) hr (by simpa using h) ?_
  · rw [he]
    simpa using this
  rintro i t t' - hi ht hb
  have hva : b + i * pageSize < 0xC00000 := by
    simp only [pageSize]
    omega
  rcases backPage_spec ht.paging hva (kpanicFatal "vmalloc: failed to allocate physical page\n" [])
    (kpanicFatal "vmalloc: failed to map page\n" []) with ⟨j, tb, t₁, hm, he⟩ | ⟨-, he⟩
  · rw [he] at hb
    cases hb
    rw [show b + (i + 1) * 4096 = b + i * 4096 + 4096 by omega]
    exact ht.grow hm
  · rw [he] at hb
    cases hb

/-! ## Code that keeps the frames -/

/-- From `s` to `s'` every frame in use keeps an owner. -/
def KeepsFrames (img : Image) (s s' : State Flat) : Prop :=
  FramesOwned img s s.vmem.vmemCurrent → FramesOwned img s' s'.vmem.vmemCurrent

theorem keepsFrames_frame : Frame (KeepsFrames img) where
  refl _ h := h
  trans h h' hs := h' (h hs)

theorem SameTables.keepsFrames {s s' : State Flat} (h : SameTables s s') :
    KeepsFrames img s s' := by
  obtain ⟨h1, h2, h3⟩ := h
  intro hs
  rw [h3]
  exact hs.congr h1 h2

theorem keepsFrames_of_sameTables {α : Type} {x : K Flat α} (h : Keeps SameTables x) :
    Keeps (KeepsFrames img) x :=
  fun s a s' hr => (h s a s' hr).keepsFrames

/-- The largest size whose pages cannot wrap around the address space. -/
@[simp] def vmallocSafe : Nat := 0xFF000000

theorem vmalloc_keepsFrames {n : Nat} (hn : n ≤ vmallocSafe) :
    Keeps (KeepsFrames img) (vmalloc img n) := by
  intro s p s' hr h
  unfold vmalloc at hr
  split at hr
  · cases hr
    exact h
  rw [get_bind_apply] at hr
  obtain ⟨res, s₁, hsearch, hr⟩ := bind_eq_ok.mp hr
  have hsame := Keeps.iterate sameTables_frame (vmallocStep_sameTables (round8 n)) _ _ _ _ _ hsearch
  have h₁ := hsame.keepsFrames h
  cases res with
  | found q =>
    cases hr
    exact h₁
  | last prev =>
    have hhi := h₁.hi
    simp only [vmallocSafe] at hn
    have hr8 := round8_bounds (n := n) (by omega)
    obtain ⟨k, e, s₂, -, -, he, hlim, hmap, happ⟩ := vmallocExpand_ok (by omega) hr
    obtain ⟨g1, g2, g3⟩ := vmemAppend_tables happ
    rw [g3]
    exact (vmallocMap_framesOwned h₁ he (by simp only [kvmemEnd] at hlim; omega) hmap).congr g1 g2

theorem vbrkStep_keepsFrames (a : Nat) : Keeps (KeepsFrames img) (vbrkStep img a ()) := by
  intro s r s' hr h
  have hhi := h.hi
  unfold vbrkStep at hr
  rw [get_bind_apply] at hr
  split at hr
  swap
  · cases hr
    exact h
  rcases mapFresh_spec h.paging (v := s.vmem.vmemCurrent) (by omega) with
    ⟨k, t, s₁, hm, h1, h2⟩ | ⟨-, h1⟩
  · rw [bind_of_ok h1, bind_of_ok h2] at hr
    have hv₁ : s₁.vmem = s.vmem := by
      rw [hm.eq]
      rfl
    have hnext : add32 s₁.vmem.vmemCurrent pageSize = s.vmem.vmemCurrent + 4096 := by
      rw [hv₁]
      simp only [add32, pageSize]
      omega
    have hr : EStateM.Result.ok (.inl ()) { s₁ with vmem := { s₁.vmem with
        vmemCurrent := add32 s₁.vmem.vmemCurrent pageSize
        vmemSize := add32 s₁.vmem.vmemSize pageSize } } = .ok r s' := hr
    injection hr with hr' hr
    subst hr hr'
    show FramesOwned img _ (add32 s₁.vmem.vmemCurrent pageSize)
    rw [hnext]
    exact (h.grow hm).congr rfl rfl
  · rw [bind_of_error h1] at hr
    cases hr

theorem vbrk_keepsFrames (a : Nat) : Keeps (KeepsFrames img) (vbrk img a) := by
  have hloop : Keeps (KeepsFrames img) (iterate .outOfFuel (vbrkStep img a) maxRounds ()) :=
    .iterate keepsFrames_frame (fun _ => vbrkStep_keepsFrames a) _ _
  refine .ite ?_ (.bind keepsFrames_frame (.get keepsFrames_frame) fun s =>
    .ite (.pure keepsFrames_frame _) ?_)
  · exact .bind keepsFrames_frame (.get keepsFrames_frame) fun _ => .pure keepsFrames_frame _
  · exact .bind keepsFrames_frame hloop fun _ =>
      .bind keepsFrames_frame (.get keepsFrames_frame) fun _ => .pure keepsFrames_frame _

/-! ## A frame on loan -/

/-- Frame `k` is in use and nobody's; every other one is accounted for. -/
structure Lent (img : Image) (s : State Flat) (e k : Nat) : Prop extends TestMapped img s e k where
  total : s.pmm.totalPages = 2304
  owned : ∀ j, 256 ≤ j → j < 2304 → j ≠ k → s.pmm.bit j = true → FrameOwned img s.mem.table e j

theorem Lent.setData {s : State Flat} {e k : Nat} (h : Lent img s e k) (d : Mem) :
    Lent img (s.setData d) e k where
  toTestMapped := h.toTestMapped.setData d
  total := h.total
  owned := h.owned

theorem FramesOwned.lend {s s' : State Flat} {e phys : Nat} (h : FramesOwned img s e)
    (hr : pmmAllocPage s = .ok phys s') :
    ∃ k, phys = pmmStart + k * pageSize ∧ Lent img s' e k ∧ s'.vmem = s.vmem := by
  obtain ⟨k, hk, hb, -, rfl, rfl⟩ := pmmAllocPage_ok h.paging.pmm hr
  refine ⟨k, rfl,
    ⟨h.testMapped hk hb, (s.pmm.take_totalPages k).trans h.total, fun j hj hj' hjk hbj => ?_⟩, rfl⟩
  change (s.pmm.take k).bit j = true at hbj
  rw [s.pmm.bit_take j (h.paging.pmm.lt_bits hk), if_neg hjk] at hbj
  exact h.owned j hj hj' hbj

theorem Lent.free {s s' : State Flat} {e k : Nat} {u : Unit} (h : Lent img s e k)
    (hr : pmmFreePage (pmmStart + k * pageSize) s = .ok u s') :
    FramesOwned img s' e ∧ s'.vmem = s.vmem := by
  obtain ⟨hf, hv⟩ := h.toTestMapped.free hr
  rw [pmmFreePage_used h.frames.paging.pmm h.lt h.used] at hr
  cases hr
  refine ⟨⟨hf, (s.pmm.give_totalPages k).trans h.total, fun j hj hj' hbj => ?_⟩, hv⟩
  change (s.pmm.give k).bit j = true at hbj
  rw [s.pmm.bit_give j (h.frames.paging.pmm.lt_bits h.lt)] at hbj
  by_cases hjk : j = k
  · rw [if_pos hjk] at hbj
    cases hbj
  · rw [if_neg hjk] at hbj
    exact h.owned j hj hj' hjk hbj

theorem Updates.far {t t' : Mem} {e v x : Nat} (hu : Updates img t t' v x) (hv : 0xC00000 ≤ v)
    (he : e ≤ 0xA00000) : ∀ w, Backed e w → entryAt img t' w = entryAt img t w := by
  rintro w ⟨h1, h2, h3⟩
  rw [hu w (by omega), if_neg (by omega)]

theorem Lent.unmap {s s' : State Flat} {e k v : Nat} {u : Unit}
    (h : Lent img s e k) (hlo : 0xC00000 ≤ v)
    (hv : v < 2 ^ 32) (hr : vmmUnmapPage img v s = .ok u s') :
    Lent img s' e k ∧ s'.vmem = s.vmem := by
  obtain ⟨t, he, hinv, hpde, hupd⟩ := vmmUnmapPage_spec h.frames.paging hv
  rw [he] at hr
  cases hr
  have hent := hupd.far hlo h.frames.hi
  refine ⟨⟨⟨?_, h.lt, h.used, h.ge, fun w hw => ?_, fun i hi hp => ?_, h.count⟩,
    h.total, fun j hj hj' hjk hb => ?_⟩, rfl⟩
  · exact h.frames.transfer hinv rfl (Nat.le_refl _) (fun _ hj => hj) hent
      fun i hi hp => .inl ⟨(present_congr (hpde i hi)).mp hp, tableOf_congr (hpde i hi)⟩
  · exact (hent w hw).symm ▸ h.back w hw
  · exact (tableOf_congr (hpde i hi)).symm ▸ h.table i hi ((present_congr (hpde i hi)).mp hp)
  · exact (h.owned j hj hj' hjk hb).mono (fun w hw => ⟨hw, hent w hw⟩) fun i hi hp =>
      ⟨(present_congr (hpde i hi)).mpr hp, tableOf_congr (hpde i hi)⟩

theorem Lent.map {s s' : State Flat} {e k v phys flags : Nat} {r : Int} (h : Lent img s e k)
    (hlo : 0xC00000 ≤ v) (hv : v < 2 ^ 32) (hr : vmmMapPage img v phys flags s = .ok r s') :
    r = 0 ∧ Lent img s' e k ∧ s'.vmem = s.vmem := by
  have hhi := h.frames.hi
  have hpmm := h.frames.paging.pmm
  rcases vmmMapPage_spec h.frames.paging phys flags hv with
    ⟨-, t, he, hinv, hpde, hupd⟩ | ⟨hnp, j, t, hj, hbj, -, he, hinv, hpres, htab, hpde, hupd⟩ |
    ⟨-, -, he⟩
  · rw [he] at hr
    cases hr
    have hent := hupd.far hlo hhi
    refine ⟨rfl, ⟨⟨?_, h.lt, h.used, h.ge, fun w hw => ?_, fun i hi hp => ?_, h.count⟩, h.total,
      fun j hj hj' hjk hb => ?_⟩, rfl⟩
    · exact h.frames.transfer hinv rfl (Nat.le_refl _) (fun _ hj => hj) hent
        fun i hi hp => .inl ⟨(present_congr (hpde i hi)).mp hp, tableOf_congr (hpde i hi)⟩
    · exact (hent w hw).symm ▸ h.back w hw
    · exact (tableOf_congr (hpde i hi)).symm ▸ h.table i hi ((present_congr (hpde i hi)).mp hp)
    · exact (h.owned j hj hj' hjk hb).mono (fun w hw => ⟨hw, hent w hw⟩) fun i hi hp =>
        ⟨(present_congr (hpde i hi)).mpr hp, tableOf_congr (hpde i hi)⟩
  · rw [he] at hr
    cases hr
    have hent := hupd.far hlo hhi
    have hjk : j ≠ k := by
      rintro rfl
      rw [h.used] at hbj
      cases hbj
    have hbit : ∀ i, (s.pmm.take j).bit i = if i = j then true else s.pmm.bit i :=
      fun i => s.pmm.bit_take i (hpmm.lt_bits hj)
    have hkept : ∀ i, s.pmm.bit i = true → (s.pmm.take j).bit i = true := by
      intro i hi
      rw [hbit, hi, ite_self]
    have hslot : ∀ i, i < 1024 → Present img t i →
        (Present img s.mem.table i ∧ tableOf img t i = tableOf img s.mem.table i) ∨
        tableOf img t i = pmmStart + j * pageSize := by
      intro i hi hp
      by_cases hne : i = pdIndex v
      · rw [hne]
        exact .inr htab
      · exact .inl ⟨(present_congr (hpde i hi hne)).mp hp, tableOf_congr (hpde i hi hne)⟩
    refine ⟨rfl, ⟨⟨?_, by simpa using h.lt, hkept k h.used, h.ge, fun w hw => ?_, fun i hi hp => ?_,
      ?_⟩, (s.pmm.take_totalPages j).trans h.total, fun i hi hi' hik hb => ?_⟩, rfl⟩
    · refine h.frames.transfer hinv (by simp) (Nat.sub_le _ _) hkept hent fun i hi hp => ?_
      exact (hslot i hi hp).imp id fun ht => ⟨j, hbj, ht⟩
    · exact (hent w hw).symm ▸ h.back w hw
    · rcases hslot i hi hp with ⟨hp', ht⟩ | ht
      · exact ht.symm ▸ h.table i hi hp'
      · refine ht.symm ▸ fun heq => hjk ?_
        simp only [pageSize] at heq
        omega
    · have := h.count
      show _ / _ + ((s.pmm.take j).freePages + 1) ≤ _
      have : (s.pmm.take j).freePages ≤ s.pmm.freePages := Nat.sub_le _ _
      omega
    · change (s.pmm.take j).bit i = true at hb
      show FrameOwned img t e i
      by_cases hij : i = j
      · -- the new frame is the new table
        exact .inr ⟨pdIndex v, by unfold pdIndex; omega, pdIndex_lt hv, hpres, hij ▸ htab⟩
      · rw [hbit, if_neg hij] at hb
        refine (h.owned i hi hi' hik hb).mono (fun w hw => ⟨hw, hent w hw⟩) fun l hl hp => ?_
        have hne : l ≠ pdIndex v := by
          rintro rfl
          exact hnp hp
        exact ⟨(present_congr (hpde l hl hne)).mpr hp, tableOf_congr (hpde l hl hne)⟩
  · rw [he] at hr
    cases hr

/-! ## Owners -/

theorem FrameInv.owner_inj {s : State Flat} (h : FrameInv img s s.vmem.vmemCurrent) {o o' : Owner}
    (ho : Owner.In img s o) (ho' : Owner.In img s o')
    (he : Owner.frame img s o = Owner.frame img s o') :
    o = o' := by
  have hmixed : ∀ v i, Owner.In img s (.page v) → Owner.In img s (.table i) →
      Owner.frame img s (.page v) ≠ Owner.frame img s (.table i) := by
    intro v i hv hi hvi
    obtain ⟨k, he, -, hk, -⟩ := h.backed v (hv.backed h)
    rw [Owner.frame_page h hk he, show Owner.frame img s (.table i) = _ from tableOf_eq _ _] at hvi
    refine h.apart v i (hv.backed h) hi.2.1 hi.present ?_
    rw [he, hvi]
  cases o with
  | page v =>
    cases o' with
    | page w =>
      obtain ⟨k, hv, -, hk, -⟩ := h.backed v (ho.backed h)
      obtain ⟨k', hw, -, hk', -⟩ := h.backed w (ho'.backed h)
      rw [Owner.frame_page h hk hv, Owner.frame_page h hk' hw] at he
      rw [h.inj v w (ho.backed h) (ho'.backed h) (by rw [hv, hw, he])]
    | table i => exact absurd he (hmixed v i ho ho')
  | table i =>
    cases o' with
    | page w => exact absurd he.symm (hmixed w i ho' ho)
    | table j =>
      have hij : tableOf img s.mem.table i = tableOf img s.mem.table j := by
        rw [← tableOf_eq, ← tableOf_eq]
        exact he
      rw [h.paging.inj i j ho.2.1 ho'.2.1 ho.present ho'.present hij]

/-! ## Counting frames -/

/-- The slots whose table was made by `virt_to_pte`. -/
def madeTables (img : Image) (t : Mem) : Finset Nat := (Finset.Ico 3 1024).filter (Present img t)

def frameAt (a : Nat) : Nat := (a - pmmStart) / pageSize

theorem frameAt_add {k c : Nat} (hc : c < 4096) : frameAt (pmmStart + k * pageSize + c) = k := by
  simp only [frameAt, pmmStart, pageSize]
  omega

/-- The frame of page `j` of the heap and the region. -/
def pageFrame (img : Image) (t : Mem) (j : Nat) : Nat :=
  frameAt (entryAt img t (kheapStart + j * pageSize))

section Count

variable {s : State Flat} {e : Nat} (h : FramesOwned img s e)
include h

theorem FramesOwned.ofPage {j : Nat} (hj : j < (e - kheapStart) / 4096) :
    Backed e (kheapStart + j * pageSize) ∧ entryAt img s.mem.table (kheapStart + j * pageSize) =
      pmmStart + pageFrame img s.mem.table j * pageSize + 3 ∧
      256 ≤ pageFrame img s.mem.table j ∧ pageFrame img s.mem.table j < 2304 ∧
      s.pmm.bit (pageFrame img s.mem.table j) = true := by
  have hb : Backed e (kheapStart + j * pageSize) := by
    simp only [kheapStart, pageSize] at hj ⊢
    exact ⟨by omega, by simp only [kheapStart]; omega, by omega⟩
  obtain ⟨k, he, hk, hlt, hbit⟩ := h.backed _ hb
  have hfr : pageFrame img s.mem.table j = k := by
    unfold pageFrame
    rw [he]
    exact frameAt_add (by decide)
  rw [hfr]
  exact ⟨hb, he, hk, h.total ▸ hlt, hbit⟩

theorem FramesOwned.ofTable {i : Nat} (hi : i ∈ madeTables img s.mem.table) :
    i < 1024 ∧ Present img s.mem.table i ∧
      tableOf img s.mem.table i = pmmStart + frameAt (tableOf img s.mem.table i) * pageSize ∧
      256 ≤ frameAt (tableOf img s.mem.table i) ∧ frameAt (tableOf img s.mem.table i) < 2304 ∧
      s.pmm.bit (frameAt (tableOf img s.mem.table i)) = true := by
  obtain ⟨hi, hp⟩ := Finset.mem_filter.mp hi
  obtain ⟨hi3, hi⟩ := Finset.mem_Ico.mp hi
  cases h.paging.own i hi hp with
  | static hlt _ => omega
  | frame k _ hk hlt hb ht =>
    have hfr : frameAt (tableOf img s.mem.table i) = k := by
      rw [ht]
      exact frameAt_add (c := 0) (by decide)
    rw [hfr]
    exact ⟨hi, hp, ht, hk, h.total ▸ hlt, hb⟩

theorem FramesOwned.used_eq : (Finset.Ico 256 2304).filter (fun k => s.pmm.bit k = true) =
    (Finset.range ((e - kheapStart) / 4096)).image (pageFrame img s.mem.table) ∪
      (madeTables img s.mem.table).image fun i => frameAt (tableOf img s.mem.table i) := by
  ext k
  simp only [Finset.mem_filter, Finset.mem_Ico, Finset.mem_union,
    Finset.mem_image, Finset.mem_range]
  constructor
  · rintro ⟨⟨hk, hlt⟩, hb⟩
    rcases h.owned k hk hlt hb with ⟨v, ⟨h1, h2, h3⟩, he⟩ | ⟨i, hi3, hi, hp, ht⟩
    · simp only [kheapStart] at h2
      refine .inl ⟨(v - kheapStart) / 4096, ?_, ?_⟩
      · have := h.toFrameInv.page
        simp only [kheapStart]
        omega
      · unfold pageFrame
        rw [show kheapStart + (v - kheapStart) / 4096 * pageSize = v by
          simp only [kheapStart, pageSize]
          omega, he]
        exact frameAt_add (by decide)
    · refine .inr ⟨i, Finset.mem_filter.mpr ⟨Finset.mem_Ico.mpr ⟨hi3, hi⟩, hp⟩, ?_⟩
      rw [ht]
      exact frameAt_add (c := 0) (by decide)
  · rintro (⟨j, hj, rfl⟩ | ⟨i, hi, rfl⟩)
    · obtain ⟨-, -, hk, hlt, hb⟩ := h.ofPage hj
      exact ⟨⟨hk, hlt⟩, hb⟩
    · obtain ⟨-, -, -, hk, hlt, hb⟩ := h.ofTable hi
      exact ⟨⟨hk, hlt⟩, hb⟩

theorem FramesOwned.used_card : ((Finset.Ico 256 2304).filter fun k => s.pmm.bit k = true).card =
    (e - kheapStart) / 4096 + (madeTables img s.mem.table).card := by
  rw [h.used_eq, Finset.card_union_of_disjoint, Finset.card_image_of_injOn,
    Finset.card_image_of_injOn,
    Finset.card_range]
  · -- different slots have different tables
    intro i hi i' hi' heq
    obtain ⟨hlt, hp, ht, -⟩ := h.ofTable hi
    obtain ⟨hlt', hp', ht', -⟩ := h.ofTable hi'
    refine h.paging.inj i i' hlt hlt' hp hp' ?_
    rw [ht, ht']
    exact congrArg (pmmStart + · * pageSize) heq
  · -- different pages have different frames
    intro j hj j' hj' heq
    obtain ⟨hb, he, -⟩ := h.ofPage (Finset.mem_range.mp hj)
    obtain ⟨hb', he', -⟩ := h.ofPage (Finset.mem_range.mp hj')
    have hpage := h.inj _ _ hb hb' (by rw [he, he', heq])
    simp only [pageSize] at hpage
    omega
  · -- no page is a table
    refine Finset.disjoint_left.mpr fun k hk hk' => ?_
    obtain ⟨j, hj, rfl⟩ := Finset.mem_image.mp hk
    obtain ⟨i, hi, heq⟩ := Finset.mem_image.mp hk'
    obtain ⟨hb, he, -⟩ := h.ofPage (Finset.mem_range.mp hj)
    obtain ⟨hlt, hp, ht, -⟩ := h.ofTable hi
    refine h.apart _ i hb hlt hp ?_
    rw [he, ht, heq]

/-- **Every frame is accounted for**: what the region and the new tables took is what is missing. -/
theorem FramesOwned.count_eq :
    (e - kvmemStart) / 4096 + (madeTables img s.mem.table).card + s.pmm.freePages = 1792 := by
  have hlo := h.lo
  have hpage := h.toFrameInv.page
  have hclear : s.pmm.clear = (Finset.Ico 256 2304).filter fun k => ¬ s.pmm.bit k = true := by
    ext k
    simp only [Pmm.mem_clear, Finset.mem_filter, Finset.mem_Ico, h.total, Bool.not_eq_true]
    refine ⟨fun ⟨hk, hb⟩ => ⟨⟨h.toFrameInv.ge_reserved hb, hk⟩, hb⟩, fun ⟨hk, hb⟩ => ⟨hk.2, hb⟩⟩
  have hsplit :=
    Finset.card_filter_add_card_filter_not (s := Finset.Ico 256 2304) fun k => s.pmm.bit k = true
  rw [h.used_card, ← hclear, ← h.paging.pmm.count, Nat.card_Ico] at hsplit
  have hheap : (e - kheapStart) / 4096 = (e - kvmemStart) / 4096 + 256 := by
    simp only [kheapStart, kvmemStart] at hlo ⊢
    omega
  omega

end Count

end Kfs
