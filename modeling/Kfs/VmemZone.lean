import Kfs.FrameRun
import Kfs.VmemRun

/-!
# The zone of `vmalloc`

`vmalloc` checks that the region it expands ends inside the kernel's zone. `vbrk`
moves the same end and checks only that it does not move down. So the region
stays in its zone exactly as long as nobody asks `vbrk` for more: a run is
in the zone throughout if and only if no `vbrk` of it names an address past
`KVMEM_END + 1`.
-/

namespace Kfs

open Kfs.Lib

variable (img : Image)

/-- The end of the region is a page boundary of the zone. -/
def InZone (s : State Flat) : Prop :=
  s.vmem.vmemCurrent % pageSize = 0 ∧ kvmemStart ≤ s.vmem.vmemCurrent ∧
    s.vmem.vmemCurrent ≤ kvmemEnd + 1

/-- A call as in `VmemStep`, where `vmalloc(0)` is allowed too: it returns null, which
nobody holds. -/
def ZoneStep (x : VmemSys Flat) : VmemOp → VmemSys Flat → Prop
  | .vmalloc n, y => n ≤ 0x300000 ∧ ∃ p, vmalloc img n x.st = .ok p y.st ∧
      y.live = if n = 0 then x.live else insert p x.live
  | .vfree p, y => VmemStep img x (.vfree p) y
  | .vbrk a, y => VmemStep img x (.vbrk a) y
  | .write p a v, y => VmemStep img x (.write p a v) y

/-- A step that ends in the zone and maps no page outside it anew. -/
def ZoneKept (x : VmemSys Flat) (_ : VmemOp) (y : VmemSys Flat) : Prop :=
  InZone y.st ∧ SameOutside img kvmemStart (kvmemEnd + 1) x.st y.st

/-- A `vbrk` names an address inside the zone. -/
def AsksInside (_ : VmemSys Flat) (op : VmemOp) : Prop := ∀ a, op = .vbrk a → a ≤ kvmemEnd + 1

variable {img}

theorem SameOutside.widen {s s' : State Flat} {a b c d : Nat} (h : SameOutside img a b s s')
    (hca : c ≤ a) (hbd : b ≤ d) : SameOutside img c d s s' :=
  fun v hv hout => h v hv (by omega)

theorem zoneKept_of_le {s s' : State Flat} (hf : FrameInv img s' s'.vmem.vmemCurrent)
    (hlo : kvmemStart ≤ s.vmem.vmemCurrent) (hhi : s'.vmem.vmemCurrent ≤ kvmemEnd + 1)
    (hout : SameOutside img s.vmem.vmemCurrent s'.vmem.vmemCurrent s s') :
    InZone s' ∧ SameOutside img kvmemStart (kvmemEnd + 1) s s' :=
  ⟨⟨hf.page, hf.lo, hhi⟩, hout.widen hlo hhi⟩

/-- **A step from the zone** stays there exactly when its `vbrk` asks for no more. -/
theorem ZoneStep.kept {x y : VmemSys Flat} {op : VmemOp}
    (h : FrameInv img x.st x.st.vmem.vmemCurrent) (hz : InZone x.st) (hs : ZoneStep img x op y) :
    FrameInv img y.st y.st.vmem.vmemCurrent ∧ (ZoneKept img x op y ↔ AsksInside x op) := by
  have hsame : SameTables x.st y.st → FrameInv img y.st y.st.vmem.vmemCurrent ∧
      ZoneKept img x op y := by
    rintro ⟨h1, h2, h3⟩
    have hf : FrameInv img y.st y.st.vmem.vmemCurrent := by
      rw [h3]
      exact h.congr h1 h2
    refine ⟨hf, zoneKept_of_le hf hz.2.1 ?_ fun _ _ _ => by rw [h2]⟩
    rw [h3]
    exact hz.2.2
  cases op with
  | vmalloc n =>
    obtain ⟨hn, p, hr, -⟩ := hs
    obtain ⟨hf, hle, hend, hout⟩ := vmalloc_frames h hn hr
    have hhi : y.st.vmem.vmemCurrent ≤ kvmemEnd + 1 := by
      have := hz.2.2
      omega
    exact ⟨hf, ⟨fun _ a ha => (by cases ha), fun _ => zoneKept_of_le hf hz.2.1 hhi hout⟩⟩
  | vfree p =>
    obtain ⟨hf, hk⟩ := hsame (vfree_sameTables p _ _ _ hs.2.1)
    exact ⟨hf, ⟨fun _ a ha => (by cases ha), fun _ => hk⟩⟩
  | write p a v =>
    obtain ⟨-, -, -, hst, -⟩ := hs
    obtain ⟨hf, hk⟩ := hsame (by rw [hst]; exact ⟨rfl, rfl, rfl⟩)
    exact ⟨hf, ⟨fun _ a ha => (by cases ha), fun _ => hk⟩⟩
  | vbrk a =>
    obtain ⟨-, ⟨r, hr⟩, -⟩ := hs
    obtain ⟨hno, heq⟩ | ⟨hle, hge, hlt, hg, hout⟩ := vbrk_spec h hr
    · -- refused: the state is as before, and `a` lies below the end of the zone
      obtain ⟨hf, hk⟩ := hsame (by rw [heq]; exact sameTables_frame.refl _)
      refine ⟨hf, ⟨fun _ b hb => ?_, fun _ => hk⟩⟩
      cases hb
      have hhi := hz.2.2
      simp only [kvmemStart, kvmemEnd] at *
      omega
    · refine ⟨hg.frames, ⟨fun hk b hb => ?_, fun hask => ?_⟩⟩
      · cases hb
        exact hge.trans hk.1.2.2
      · have ha := hask a rfl
        have hpage := hg.frames.page
        refine zoneKept_of_le hg.frames hz.2.1 ?_ hout
        simp only [kvmemEnd] at *
        omega

/-- **When the region stays in its zone.** In every run, the end of the region is a page
boundary of the zone in every state and no step maps a page outside the zone,
if and only if no `vbrk` of the run names an address past `KVMEM_END + 1`. -/
theorem vmem_zone {x : VmemSys Flat} (h : VmemStart img x) {tr : List (VmemOp × VmemSys Flat)}
    (ht : Trace (ZoneStep img) x tr) :
    InZone x.st ∧ Trace (ZoneKept img) x tr ↔ Meets AsksInside x tr := by
  have hok := h.ok
  have hz : InZone x.st := by
    obtain ⟨s, live⟩ := x
    obtain ⟨m, hr, -⟩ := h
    obtain ⟨s', hr', hboot⟩ := memoryInit_spec img m
    rw [hr'] at hr
    cases hr
    unfold InZone
    rw [hboot.vmem]
    exact ⟨rfl, Nat.le_refl _, by decide⟩
  have hrun := Trace.iff_meets
    (I := fun x : VmemSys Flat => FrameInv img x.st x.st.vmem.vmemCurrent ∧ InZone x.st)
    (fun x i y hI hs => (hs.kept hI.1 hI.2).2)
    (fun x i y hI hs hc => ⟨(hs.kept hI.1 hI.2).1, ((hs.kept hI.1 hI.2).2.mpr hc).1⟩)
    ⟨hok.frames, hz⟩ ht
  rw [hrun]
  exact and_iff_right hz

/-! ## Both sides of the limit -/

theorem vbrkLoop_returns {a : Nat} : ∀ {n k : Nat} {s : State Flat},
    FrameInv img s s.vmem.vmemCurrent → a ≤ s.vmem.vmemCurrent + n * 4096 → n ≤ s.pmm.freePages →
    n < k → ∃ s', iterate .outOfFuel (vbrkStep img a) k () s = .ok () s'
  | n, k + 1, s, h, ha, hn, hk => by
    have hhi := h.hi
    by_cases hdone : s.vmem.vmemCurrent < a
    swap
    · refine ⟨s, iterate_done ?_⟩
      unfold vbrkStep
      rw [get_bind_apply, if_neg hdone]
      rfl
    obtain ⟨n, rfl⟩ : ∃ m, n = m + 1 := ⟨n - 1, by omega⟩
    obtain ⟨j, hj, hb⟩ := h.paging.pmm.exists_clear (by omega)
    rcases mapFresh_spec h.paging (v := s.vmem.vmemCurrent) (by omega) with
      ⟨i, t, s₁, hm, h1, h2⟩ | ⟨hall, -⟩
    · have hstep : ∃ s₂, vbrkStep img a () s = .ok (.inl ()) s₂ ∧ s₂.pmm = s₁.pmm := by
        unfold vbrkStep
        rw [get_bind_apply, if_pos hdone, bind_of_ok h1, bind_of_ok h2]
        exact ⟨_, rfl, rfl⟩
      obtain ⟨s₂, hstep, hpmm⟩ := hstep
      obtain ⟨hle, -⟩ | ⟨-, -, hg, hcur, -⟩ := vbrkStep_cases h hstep
      · omega
      have hfree : s₂.pmm.freePages = s.pmm.freePages - 1 := by
        rw [hpmm, hm.eq]
        rfl
      obtain ⟨s', hs'⟩ :=
        vbrkLoop_returns (a := a) (n := n) (k := k) hg.frames (by omega) (by omega) (by omega)
      exact ⟨s', (iterate_next hstep).trans hs'⟩
    · rw [hall j hj] at hb
      cases hb

theorem vbrk_returns {s : State Flat} {a : Nat} (h : FrameInv img s s.vmem.vmemCurrent)
    (hlo : kvmemStart ≤ a) (hcur : s.vmem.vmemCurrent ≤ a)
    (hfree : a ≤ s.vmem.vmemCurrent + s.pmm.freePages * 4096) :
    ∃ r s', vbrk img a s = .ok r s' := by
  have hpages := h.count
  obtain ⟨s', hs'⟩ := vbrkLoop_returns h hfree (Nat.le_refl _)
    (show s.pmm.freePages < maxRounds by rw [maxRounds_eq]; omega)
  refine ⟨s'.vmem.vmemCurrent, s', ?_⟩
  unfold vbrk
  rw [if_neg (by simp only [kvmemStart] at hlo; omega), get_bind_apply,
    if_neg (by simp only [Bool.or_eq_true, decide_eq_true_eq]; omega), bind_of_ok hs']
  rfl

theorem Booted.vbrk_returns {s : State Flat} (h : Booted img s) {a : Nat} (hlo : kvmemStart ≤ a)
    (hhi : a ≤ 0x800000) : ∃ r s', vbrk img a s = .ok r s' := by
  have hok := h.vmemOk
  have hcur : s.vmem.vmemCurrent = kvmemStart := by rw [h.vmem]
  refine Kfs.vbrk_returns hok.frames hlo (by omega) ?_
  rw [hcur, h.frames.free h.paging.pmm]
  simp only [kvmemStart]
  omega

/-- A run to the very end of the zone. -/
theorem vmem_zone_full : ∃ x y : VmemSys Flat, VmemStart Image.readme x ∧
    Trace (ZoneStep Image.readme) x [(.vbrk 0x600000, y)] ∧
    Trace (ZoneKept Image.readme) x [(.vbrk 0x600000, y)] := by
  obtain ⟨s, hr, hboot⟩ := memoryInit_spec Image.readme Flat.blank
  obtain ⟨r, s', hv⟩ := hboot.vbrk_returns (a := 0x600000) (by decide) (by decide)
  have hstart : VmemStart Image.readme ⟨s, ∅⟩ := ⟨_, hr, rfl⟩
  have hrun : Trace (ZoneStep Image.readme) ⟨s, ∅⟩ [(.vbrk 0x600000, ⟨s', ∅⟩)] :=
    ⟨⟨by decide, ⟨r, hv⟩, rfl⟩, trivial⟩
  have hask : Meets AsksInside (⟨s, ∅⟩ : VmemSys Flat) [(.vbrk 0x600000, ⟨s', ∅⟩)] := by
    refine ⟨fun a ha => ?_, trivial⟩
    cases ha
    decide
  exact ⟨_, _, hstart, hrun, ((vmem_zone hstart hrun).mpr hask).2⟩

/-- `vbrk(0x601000)` after start-up takes the first page of the user zone. -/
theorem vbrk_leaves_zone : ∃ x y : VmemSys Flat, VmemStart Image.readme x ∧
    ZoneStep Image.readme x (.vbrk 0x601000) y ∧ ¬ InZone y.st := by
  obtain ⟨s, hr, hboot⟩ := memoryInit_spec Image.readme Flat.blank
  obtain ⟨r, s', hv⟩ := hboot.vbrk_returns (a := 0x601000) (by decide) (by decide)
  refine ⟨⟨s, ∅⟩, ⟨s', ∅⟩, ⟨_, hr, rfl⟩, ⟨by decide, ⟨r, hv⟩, rfl⟩, fun hz => ?_⟩
  have hcur : s.vmem.vmemCurrent = 0x300000 := by rw [hboot.vmem]; rfl
  have hhi : s'.vmem.vmemCurrent ≤ 0x600000 := hz.2.2
  obtain ⟨hno, -⟩ | ⟨-, hge, -⟩ := vbrk_spec hboot.vmemOk.frames hv
  · simp only [kvmemStart] at hno
    omega
  · omega

end Kfs
