import Kfs.Pmm
import Kfs.Lib.Runs
import Mathlib.Data.Finset.Card
import Mathlib.Order.Interval.Finset.Nat

/-!
# The allocator's counter and bitmap agree

`Pmm.Inv` ties `free_pages` to the clear bits of the bitmap and says that no
bit past `total_pages` is ever clear. One specification for each operation
says what it does to the bits (`Pmm.take`, `Pmm.give`) and when it panics.
-/

namespace Kfs

open Kfs.Lib

variable {M : Type}

/-- The free frames. -/
def Pmm.clear (p : Pmm) : Finset Nat := (Finset.range p.totalPages).filter fun i => p.bit i = false

/-- **The allocator's invariant.** -/
structure Pmm.Inv (p : Pmm) : Prop where
  total : p.totalPages ≤ 2304
  count : p.freePages = p.clear.card
  top : ∀ i, p.totalPages ≤ i → i < bitmapBits → p.bit i = true

def Pmm.take (p : Pmm) (i : Nat) : Pmm := { p.mark i true with freePages := p.freePages - 1 }

def Pmm.give (p : Pmm) (i : Nat) : Pmm := { p.mark i false with freePages := p.freePages + 1 }

theorem Pmm.mem_clear {p : Pmm} {i : Nat} :
    i ∈ p.clear ↔ i < p.totalPages ∧ p.bit i = false := by
  simp [Pmm.clear]

@[simp] theorem Pmm.take_totalPages (p : Pmm) (i : Nat) :
    (p.take i).totalPages = p.totalPages := by simp [Pmm.take]

@[simp] theorem Pmm.give_totalPages (p : Pmm) (i : Nat) :
    (p.give i).totalPages = p.totalPages := by simp [Pmm.give]

theorem Pmm.bit_take (p : Pmm) {i : Nat} (j : Nat) (hi : i < bitmapBits) :
    (p.take i).bit j = if j = i then true else p.bit j := p.bit_mark true j hi

theorem Pmm.bit_give (p : Pmm) {i : Nat} (j : Nat) (hi : i < bitmapBits) :
    (p.give i).bit j = if j = i then false else p.bit j := p.bit_mark false j hi

theorem Pmm.Inv.lt_bits {p : Pmm} (h : p.Inv) {i : Nat} (hi : i < p.totalPages) :
    i < bitmapBits := by
  have := h.total
  simp
  omega

theorem Pmm.clear_take {p : Pmm} {i : Nat} (hi : i < bitmapBits) :
    (p.take i).clear = p.clear.erase i := by
  ext j
  simp only [Pmm.mem_clear, Finset.mem_erase, Pmm.take_totalPages, p.bit_take j hi]
  by_cases h : j = i <;> simp [h]

theorem Pmm.clear_give {p : Pmm} {i : Nat} (hi : i < bitmapBits) (hp : i < p.totalPages) :
    (p.give i).clear = insert i p.clear := by
  ext j
  simp only [Pmm.mem_clear, Finset.mem_insert, Pmm.give_totalPages, p.bit_give j hi]
  by_cases h : j = i <;> simp [h, hp]

theorem Pmm.Inv.freePages_pos {p : Pmm} (h : p.Inv) {i : Nat} (hi : i < p.totalPages)
    (hb : p.bit i = false) : 0 < p.freePages := by
  rw [h.count]
  exact Finset.card_pos.mpr ⟨i, Pmm.mem_clear.mpr ⟨hi, hb⟩⟩

theorem Pmm.Inv.exists_clear {p : Pmm} (h : p.Inv) (hpos : 0 < p.freePages) :
    ∃ j, j < p.totalPages ∧ p.bit j = false := by
  rw [h.count, Finset.card_pos] at hpos
  obtain ⟨j, hj⟩ := hpos
  exact ⟨j, Pmm.mem_clear.mp hj⟩

theorem Pmm.Inv.freePages_le {p : Pmm} (h : p.Inv) : p.freePages ≤ p.totalPages := by
  rw [h.count]
  exact (Finset.card_filter_le _ _).trans (by simp)

theorem Pmm.Inv.take {p : Pmm} (h : p.Inv) {i : Nat} (hi : i < p.totalPages)
    (hb : p.bit i = false) : (p.take i).Inv where
  total := by simpa using h.total
  count := by
    rw [Pmm.clear_take (h.lt_bits hi), Finset.card_erase_of_mem (Pmm.mem_clear.mpr ⟨hi, hb⟩),
      ← h.count]
    rfl
  top j h1 h2 := by
    rw [p.bit_take j (h.lt_bits hi)]
    split
    · rfl
    · exact h.top j (by simpa using h1) h2

theorem Pmm.Inv.give {p : Pmm} (h : p.Inv) {i : Nat} (hi : i < p.totalPages)
    (hb : p.bit i = true) : (p.give i).Inv where
  total := by simpa using h.total
  count := by
    rw [Pmm.clear_give (h.lt_bits hi) hi, Finset.card_insert_of_notMem, ← h.count]
    · rfl
    · simp [Pmm.mem_clear, hb]
  top j h1 h2 := by
    simp only [Pmm.give_totalPages] at h1
    rw [p.bit_give j (h.lt_bits hi), if_neg (by omega)]
    exact h.top j h1 h2

/-! ## `pmm_alloc_page` -/

/-- **`pmm_alloc_page`** hands out the lowest free frame, and panics when there
is none. -/
theorem pmmAllocPage_spec {s : State M} (h : s.pmm.Inv) :
    (∃ i, i < s.pmm.totalPages ∧ s.pmm.bit i = false ∧ (∀ j, j < i → s.pmm.bit j = true) ∧
      pmmAllocPage s = .ok (pmmStart + i * pageSize) { s with pmm := s.pmm.take i }) ∨
    ((∀ j, j < s.pmm.totalPages → s.pmm.bit j = true) ∧
      pmmAllocPage s = .error (.panic "PMM out of memory\n" []) s) := by
  have htot := h.total
  have htst : ∀ i, 0 ≤ i → i < 0 + s.pmm.totalPages →
      (do return !(← tstBit i) : K M Bool) s = .ok (!s.pmm.bit i) s := by
    intro i _ hi
    rw [bind_of_ok (tstBit_eq (h.lt_bits (by omega)) s)]
    rfl
  rcases findUp_pure htst with ⟨i, -, hi, hb, hmin, hf⟩ | ⟨hall, hf⟩
  · refine .inl ⟨i, by omega, by simpa using hb, fun j hj =>
      by simpa using hmin j (by omega) hj, ?_⟩
    have hbit : s.pmm.bit i = false := by simpa using hb
    have hpos := h.freePages_pos (by omega) hbit
    have hle := h.freePages_le
    unfold pmmAllocPage
    rw [get_bind_apply, bind_of_ok hf]
    simp only
    rw [bind_of_ok (setBit_eq (h.lt_bits (by omega)) s), decFreePages,
      modify_bind_apply, pure_apply]
    have haddr : add32 pmmStart (i * pageSize % 2 ^ 32) = pmmStart + i * pageSize := by
      simp only [add32, pmmStart, pageSize]
      omega
    have hfree : sub32 s.pmm.freePages 1 = s.pmm.freePages - 1 := by
      unfold sub32
      omega
    simp only [haddr, Pmm.mark_freePages, hfree]
    rfl
  · refine .inr ⟨fun j hj => by simpa using hall j (by omega) (by omega), ?_⟩
    unfold pmmAllocPage
    rw [get_bind_apply, bind_of_ok hf]
    rfl

theorem pmmAllocPage_ok {s s' : State M} {a : Nat} (h : s.pmm.Inv)
    (hr : pmmAllocPage s = .ok a s') :
    ∃ i, i < s.pmm.totalPages ∧ s.pmm.bit i = false ∧ (∀ j, j < i → s.pmm.bit j = true) ∧
      a = pmmStart + i * pageSize ∧ s' = { s with pmm := s.pmm.take i } := by
  rcases pmmAllocPage_spec h with ⟨i, hi, hb, hmin, he⟩ | ⟨-, he⟩
  · rw [he] at hr
    cases hr
    exact ⟨i, hi, hb, hmin, rfl, rfl⟩
  · rw [he] at hr
    cases hr

theorem pmmAllocPage_lowest {s : State M} {i : Nat} (h : s.pmm.Inv) (hi : i < s.pmm.totalPages)
    (hb : s.pmm.bit i = false) (hmin : ∀ j, j < i → s.pmm.bit j = true) :
    pmmAllocPage s = .ok (pmmStart + i * pageSize) { s with pmm := s.pmm.take i } := by
  rcases pmmAllocPage_spec h with ⟨j, -, hbj, hminj, he⟩ | ⟨hall, -⟩
  · rcases Nat.lt_trichotomy j i with hlt | rfl | hgt
    · rw [hmin j hlt] at hbj
      cases hbj
    · exact he
    · rw [hminj i hgt] at hb
      cases hb
  · rw [hall i hi] at hb
    cases hb

theorem pmmAllocPage_full {s : State M} (h : s.pmm.Inv)
    (hall : ∀ j, j < s.pmm.totalPages → s.pmm.bit j = true) :
    pmmAllocPage s = .error (.panic "PMM out of memory\n" []) s := by
  rcases pmmAllocPage_spec h with ⟨i, hi, hb, -, -⟩ | ⟨-, he⟩
  · rw [hall i hi] at hb
    cases hb
  · exact he

/-! ## `pmm_free_page` -/

def frameIndex (a : Nat) : Nat := (a - pmmStart) / pageSize

theorem frameIndex_frame (i : Nat) : frameIndex (pmmStart + i * pageSize) = i := by
  simp only [frameIndex, pmmStart, pageSize]
  omega

/-- **`pmm_free_page`** ignores addresses outside the managed range, panics on a
frame that is already free, and otherwise clears one bit. -/
theorem pmmFreePage_spec {s : State M} (h : s.pmm.Inv) {a : Nat} (ha : a < 2 ^ 32) :
    ((a < pmmStart ∨ s.pmm.totalPages ≤ frameIndex a) ∧ pmmFreePage a s = .ok () s) ∨
    (pmmStart ≤ a ∧ frameIndex a < s.pmm.totalPages ∧ s.pmm.bit (frameIndex a) = false ∧
      pmmFreePage a s = .error (.panic "PMM: double free page %x\n" [a]) s) ∨
    (pmmStart ≤ a ∧ frameIndex a < s.pmm.totalPages ∧ s.pmm.bit (frameIndex a) = true ∧
      pmmFreePage a s = .ok () { s with pmm := s.pmm.give (frameIndex a) }) := by
  by_cases hlo : a < pmmStart
  · refine .inl ⟨.inl hlo, ?_⟩
    unfold pmmFreePage
    rw [if_pos hlo]
    rfl
  have hidx : sub32 a pmmStart / pageSize = frameIndex a := by
    rw [sub32_eq (by omega) ha]
    rfl
  have hstart : pmmFreePage a s = (do
      let s ← get
      if frameIndex a ≥ s.pmm.totalPages then return
      if !(← tstBit (frameIndex a)) then
        kpanicFatal "PMM: double free page %x\n" [a]
      clrBit (frameIndex a)
      incFreePages : K M Unit) s := by
    unfold pmmFreePage
    rw [if_neg hlo, hidx]
  by_cases hhi : s.pmm.totalPages ≤ frameIndex a
  · refine .inl ⟨.inr hhi, ?_⟩
    rw [hstart, get_bind_apply, if_pos hhi]
    rfl
  have hi := h.lt_bits (Nat.lt_of_not_le hhi)
  rw [hstart, get_bind_apply, if_neg hhi, bind_of_ok (tstBit_eq hi s)]
  refine .inr ?_
  cases hb : s.pmm.bit (frameIndex a) with
  | false => exact .inl ⟨by omega, by omega, rfl, rfl⟩
  | true =>
    refine .inr ⟨by omega, by omega, rfl, ?_⟩
    have hle := h.freePages_le
    have htot := h.total
    have hinc : add32 s.pmm.freePages 1 = s.pmm.freePages + 1 := add32_eq (by omega)
    simp only [Bool.not_true, Bool.false_eq_true, ↓reduceIte]
    rw [bind_of_ok (clrBit_eq hi s), incFreePages, modify_apply]
    simp only [Pmm.mark_freePages, hinc]
    rfl

theorem pmmFreePage_used {s : State M} {i : Nat} (h : s.pmm.Inv) (hi : i < s.pmm.totalPages)
    (hb : s.pmm.bit i = true) :
    pmmFreePage (pmmStart + i * pageSize) s = .ok () { s with pmm := s.pmm.give i } := by
  have htot := h.total
  have ha : pmmStart + i * pageSize < 2 ^ 32 := by
    simp only [pmmStart, pageSize]
    omega
  rcases pmmFreePage_spec h ha with ⟨hout, -⟩ | ⟨-, -, hfree, -⟩ | ⟨-, -, -, he⟩
  · rw [frameIndex_frame] at hout
    omega
  · rw [frameIndex_frame, hb] at hfree
    cases hfree
  · rw [he, frameIndex_frame]

/-! ## `pmm_init` -/

theorem bitmapSet_eq {i : Nat} (h : i < bitmapWords) (w : BitVec 32) (s : State M) :
    bitmapSet i w s = .ok () { s with pmm := { s.pmm with bitmap := s.pmm.bitmap.set i w h } } := by
  unfold bitmapSet
  rw [dif_pos h]
  rfl

theorem Pmm.bit_setOnes (p : Pmm) {i : Nat} (h : i < bitmapWords) (j : Nat) :
    ({ p with bitmap := p.bitmap.set i 0xFFFFFFFF#32 h } : Pmm).bit j =
      if j / 32 = i then true else p.bit j := by
  unfold Pmm.bit
  by_cases hj : j / 32 < bitmapWords
  · simp only [hj, ↓reduceDIte]
    by_cases hij : j / 32 = i
    · subst hij
      have hones : (0xFFFFFFFF#32).getLsbD (j % 32) = true := by
        have : ∀ k : Fin 32, (0xFFFFFFFF#32).getLsbD k = true := by decide
        exact this ⟨j % 32, Nat.mod_lt _ (by omega)⟩
      simp only [Vector.getElem_set_self, hones, ↓reduceIte]
    · rw [Vector.getElem_set_ne _ _ (Ne.symm hij), if_neg hij]
  · simp only [hj, ↓reduceDIte, ite_self]

/-- The frames `pmm_init` keeps for the kernel image. -/
@[simp] def reservePages : Nat := 1024 * 1024 / pageSize

/-- The first loop of `pmm_init` sets every bit. -/
theorem fillOnes_spec (s : State M) :
    ∃ s', forUp (fun i => bitmapSet i 0xFFFFFFFF#32) 0 bitmapWords s = .ok () s' ∧
      ∃ p, s' = { s with pmm := p } ∧ p.totalPages = s.pmm.totalPages ∧
        p.freePages = s.pmm.freePages ∧ ∀ j, p.bit j = true := by
  have := forUp_total (f := fun i => bitmapSet i 0xFFFFFFFF#32)
    (fun i t => ∃ p, t = { s with pmm := p } ∧ p.totalPages = s.pmm.totalPages ∧
      p.freePages = s.pmm.freePages ∧ ∀ j, j / 32 < i → p.bit j = true)
    (l := 0) (n := bitmapWords) (s := s) ⟨s.pmm, rfl, rfl, rfl, fun j hj => by omega⟩ ?_
  · obtain ⟨s', hr, p, hp, ht, hf, hb⟩ := this
    refine ⟨s', hr, p, hp, ht, hf, fun j => ?_⟩
    by_cases hj : j / 32 < bitmapWords
    · exact hb j (by omega)
    · simp only [Pmm.bit, hj, ↓reduceDIte]
  · rintro i t - hi ⟨p, rfl, ht, hf, hb⟩
    refine ⟨_, bitmapSet_eq (by omega) _ _, _, rfl, ht, hf, fun j hj => ?_⟩
    rw [Pmm.bit_setOnes]
    split
    · rfl
    · exact hb j (by omega)

/-- The second loop of `pmm_init` clears the bits below `n` and counts them. -/
theorem clearLow_spec {n : Nat} (hn : n < bitmapBits) {s : State M} (hs : s.pmm.freePages = 0)
    (hb : ∀ j, s.pmm.bit j = true) :
    ∃ s', forUp (fun i => do clrBit i; incFreePages) 0 n s = .ok () s' ∧
      ∃ p, s' = { s with pmm := p } ∧ p.totalPages = s.pmm.totalPages ∧ p.freePages = n ∧
        ∀ j, p.bit j = decide (n ≤ j) := by
  have := forUp_total (f := fun i => do clrBit i; incFreePages)
    (fun i t => ∃ p, t = { s with pmm := p } ∧ p.totalPages = s.pmm.totalPages ∧
      p.freePages = i ∧ ∀ j, p.bit j = decide (i ≤ j))
    (l := 0) (n := n) (s := s) ⟨s.pmm, rfl, rfl, hs, fun j => by simp [hb j]⟩ ?_
  · simpa using this
  · rintro i t - hi ⟨p, rfl, ht, hf, hbit⟩
    simp only [bitmapBits, bitmapWords, pmmMaxBytes, pageSize] at hn
    refine ⟨_, ?_, { p.mark i false with freePages := i + 1 }, rfl, by simpa using ht, rfl,
      fun j => ?_⟩
    · have hinc : add32 p.freePages 1 = i + 1 := by rw [hf, add32_eq (by omega)]
      rw [bind_of_ok (clrBit_eq (by simp; omega) _), incFreePages, modify_apply]
      simp only [Pmm.mark_freePages, hinc]
    · refine (p.bit_mark false j (by simp; omega)).trans ?_
      rw [hbit j]
      by_cases h : j = i
      · simp [h]
      · simp only [h, ↓reduceIte, decide_eq_decide]
        omega

/-- The third loop of `pmm_init` reserves the frames below `r`. -/
theorem reserveLow_spec {n r : Nat} (hn : n < bitmapBits) (hr : r ≤ n) {s : State M}
    (hs : s.pmm.freePages = n) (hb : ∀ j, s.pmm.bit j = decide (n ≤ j)) :
    ∃ s', forUp (fun i => do
        if !(← tstBit i) then
          setBit i
          decFreePages) 0 r s = .ok () s' ∧
      ∃ p, s' = { s with pmm := p } ∧ p.totalPages = s.pmm.totalPages ∧ p.freePages = n - r ∧
        ∀ j, p.bit j = decide (j < r ∨ n ≤ j) := by
  have := forUp_total (f := fun i => do
      if !(← tstBit i) then
        setBit i
        decFreePages)
    (fun i t => ∃ p, t = { s with pmm := p } ∧ p.totalPages = s.pmm.totalPages ∧
      p.freePages = n - i ∧ ∀ j, p.bit j = decide (j < i ∨ n ≤ j))
    (l := 0) (n := r) (s := s) ⟨s.pmm, rfl, rfl, by omega, fun j => by simp [hb j]⟩ ?_
  · simpa using this
  · rintro i t - hi ⟨p, rfl, ht, hf, hbit⟩
    simp only [bitmapBits, bitmapWords, pmmMaxBytes, pageSize] at hn
    have hi' : i < bitmapBits := by simp; omega
    refine ⟨_, ?_, { p.mark i true with freePages := n - (i + 1) }, rfl, by simpa using ht, rfl,
      fun j => ?_⟩
    · have hclr : p.bit i = false := by rw [hbit i]; simp; omega
      have hdec : sub32 p.freePages 1 = n - (i + 1) := by rw [hf]; unfold sub32; omega
      rw [bind_of_ok (tstBit_eq hi' _)]
      simp only [hclr, Bool.not_false, ↓reduceIte]
      rw [bind_of_ok (setBit_eq hi' _), decFreePages, modify_apply]
      simp only [Pmm.mark_freePages, hdec]
    · refine (p.bit_mark true j hi').trans ?_
      rw [hbit j]
      by_cases h : j = i
      · simp [h]
      · simp only [h, ↓reduceIte, decide_eq_decide]
        omega

def pagesOf (m : Nat) : Nat := (min m pmmMaxBytes - pmmStart) / pageSize

/-- **`pmm_init`** returns for every memory size that leaves a frame after
`PMM_START`; exactly the frames from `reservePages` up are free then. -/
theorem pmmInit_spec {m : Nat} (hm : pmmStart + pageSize ≤ m) (hm' : m < 2 ^ 32) (s : State M) :
    ∃ p : Pmm, pmmInit m s = .ok () { s with pmm := p } ∧ p.totalPages = pagesOf m ∧
      p.freePages = pagesOf m - reservePages ∧
      (∀ j, p.bit j = decide (j < min reservePages (pagesOf m) ∨ pagesOf m ≤ j)) := by
  have hcap : (if m > pmmMaxBytes then pmmMaxBytes else m) = min m pmmMaxBytes := by
    split <;> omega
  have havail : sub32 (min m pmmMaxBytes) pmmStart / pageSize = pagesOf m := by
    rw [sub32_eq (by simp only [pmmStart, pageSize, pmmMaxBytes] at *; omega) (by omega)]
    rfl
  have hres : (if 1024 * 1024 / pageSize > pagesOf m then pagesOf m else 1024 * 1024 / pageSize) =
      min reservePages (pagesOf m) := by
    simp only [reservePages]
    split <;> omega
  have hpages : 0 < pagesOf m ∧ pagesOf m < bitmapBits := by
    simp only [pagesOf, pmmStart, pageSize, pmmMaxBytes, bitmapBits, bitmapWords] at *
    omega
  obtain ⟨hpos, hbits⟩ := hpages
  let s₁ : State M := { s with pmm := { s.pmm with
    pmmLimitBytes := min m pmmMaxBytes, totalPages := pagesOf m, freePages := 0 } }
  obtain ⟨s₂, hr₂, p₂, rfl, ht₂, hf₂, hb₂⟩ := fillOnes_spec s₁
  obtain ⟨s₃, hr₃, p₃, rfl, ht₃, hf₃, hb₃⟩ :=
    clearLow_spec hbits (s := { s₁ with pmm := p₂ }) hf₂ hb₂
  obtain ⟨s₄, hr₄, p₄, rfl, ht₄, hf₄, hb₄⟩ := reserveLow_spec hbits
    (Nat.min_le_right reservePages (pagesOf m)) (s := { s₁ with pmm := p₃ }) hf₃ hb₃
  refine ⟨p₄, ?_, ?_, ?_, hb₄⟩
  · unfold pmmInit
    simp only [hcap, havail, hres]
    rw [modify_bind_apply, if_neg (by omega), modify_bind_apply,
      bind_of_ok hr₂, bind_of_ok hr₃, hr₄]
  · rw [ht₄, ht₃, ht₂]
  · rw [hf₄]
    omega

theorem pmmInit_inv {m : Nat} {p : Pmm} (ht : p.totalPages = pagesOf m)
    (hf : p.freePages = pagesOf m - reservePages)
    (hb : ∀ j, p.bit j = decide (j < min reservePages (pagesOf m) ∨ pagesOf m ≤ j)) : p.Inv where
  total := by
    rw [ht]
    simp only [pagesOf, pmmStart, pageSize, pmmMaxBytes]
    omega
  count := by
    have hclear : p.clear = Finset.Ico (min reservePages (pagesOf m)) (pagesOf m) := by
      ext j
      simp only [Pmm.mem_clear, hb, ht, Finset.mem_Ico, decide_eq_false_iff_not]
      omega
    rw [hclear, Nat.card_Ico, hf]
    omega
  top j h1 _ := by
    rw [hb j]
    simp [← ht, h1]

/-! ## Runs -/

/-- A call of the allocator, with the address it returns or is given. -/
inductive PmmOp where
  | alloc (a : Nat)
  | free (a : Nat)

def PmmStep (s : State M) : PmmOp → State M → Prop
  | .alloc a, s' => pmmAllocPage s = .ok a s'
  | .free a, s' => a < 2 ^ 32 ∧ pmmFreePage a s = .ok () s'

theorem PmmStep.inv {s s' : State M} {op : PmmOp} (h : s.pmm.Inv) (hs : PmmStep s op s') :
    s'.pmm.Inv := by
  cases op with
  | alloc a =>
    obtain ⟨i, hi, hb, -, -, rfl⟩ := pmmAllocPage_ok h hs
    exact h.take hi hb
  | free a =>
    obtain ⟨ha, hr⟩ := hs
    rcases pmmFreePage_spec h ha with ⟨-, he⟩ | ⟨-, -, -, he⟩ | ⟨-, hi, hb, he⟩
      <;> rw [he] at hr <;>
      cases hr
    · exact h
    · exact h.give hi hb

theorem PmmStep.bit_kept {s s' : State M} {op : PmmOp} {k : Nat} (h : s.pmm.Inv)
    (hs : PmmStep s op s') (hb : s.pmm.bit k = true)
    (hop : ∀ b, op = .free b → pmmStart ≤ b → frameIndex b ≠ k) : s'.pmm.bit k = true := by
  cases op with
  | alloc a =>
    obtain ⟨i, hi, -, -, -, rfl⟩ := pmmAllocPage_ok h hs
    simp only [s.pmm.bit_take k (h.lt_bits hi), hb, ite_self]
  | free a =>
    obtain ⟨ha, hr⟩ := hs
    rcases pmmFreePage_spec h ha with ⟨-, he⟩ | ⟨-, -, -, he⟩ | ⟨hlo, hi, -, he⟩
      <;> rw [he] at hr <;>
      cases hr
    · exact hb
    · have hne := hop a rfl hlo
      simp only [s.pmm.bit_give k (h.lt_bits hi), if_neg (Ne.symm hne), hb]

theorem pmmTrace_bit_kept {s : State M} {tr : List (PmmOp × State M)} {k : Nat}
    (ht : Trace PmmStep s tr) (h : s.pmm.Inv) (hb : s.pmm.bit k = true)
    (hop : ∀ p ∈ tr, ∀ b, p.1 = .free b → pmmStart ≤ b → frameIndex b ≠ k) :
    (lastOf s tr).pmm.Inv ∧ (lastOf s tr).pmm.bit k = true := by
  refine Trace.inv (c := fun _ op => ∀ b, op = .free b → pmmStart ≤ b → frameIndex b ≠ k)
    (I := fun s => s.pmm.Inv ∧ s.pmm.bit k = true) ?_ ht
    (Meets.of_forall fun p hp _ => hop p hp) ⟨h, hb⟩
  rintro s op s' ⟨hI, hbit⟩ hc hs
  exact ⟨hs.inv hI, hs.bit_kept hI hbit hc⟩

theorem Pmm.Inv.in_bounds {s : State M} (h : s.pmm.Inv) (i : Nat) (s' : State M) :
    pmmAllocPage s ≠ .error (.outOfBounds i) s' ∧
    ∀ a, a < 2 ^ 32 → pmmFreePage a s ≠ .error (.outOfBounds i) s' := by
  constructor
  · rcases pmmAllocPage_spec h with ⟨j, -, -, -, he⟩ | ⟨-, he⟩ <;> simp [he]
  · intro a ha
    rcases pmmFreePage_spec h ha with ⟨-, he⟩ | ⟨-, -, -, he⟩ | ⟨-, -, -, he⟩ <;> simp [he]

/-- An address handed out again was freed in between. -/
theorem pmmAlloc_again {s s' : State M} {a : Nat} (h : s.pmm.Inv) (hr : pmmAllocPage s = .ok a s')
    {tr tr' : List (PmmOp × State M)} {t : State M}
    (ht : Trace PmmStep s' (tr ++ (.alloc a, t) :: tr')) :
    ∃ b u, (PmmOp.free b, u) ∈ tr ∧ a ≤ b ∧ b < a + pageSize := by
  obtain ⟨i, hi, hclr, -, rfl, rfl⟩ := pmmAllocPage_ok h hr
  have htot := h.total
  rw [Trace.append] at ht
  obtain ⟨ht, halloc, -⟩ := ht
  by_contra hno
  have hkept := pmmTrace_bit_kept ht (h.take hi hclr)
    (by rw [s.pmm.bit_take i (h.lt_bits hi), if_pos rfl]) ?_
  · obtain ⟨hinv, hbit⟩ := hkept
    obtain ⟨j, -, hj, -, he, -⟩ := pmmAllocPage_ok hinv halloc
    have : i = j := by simp at he; omega
    subst this
    rw [hbit] at hj
    cases hj
  · rintro ⟨op, u⟩ hp b rfl hlo hidx
    refine hno ⟨b, u, hp, ?_⟩
    simp only [frameIndex, pmmStart, pageSize] at *
    omega

/-- **The frame allocator's contract.** After `pmm_init` the counter is the number
of clear bits, no bit past `total_pages` is clear, no access leaves the bitmap,
and an allocation returns the lowest free frame, which is not returned again
before an address inside it is freed. -/
theorem pmm_contract {m : Nat} (hm : pmmStart + pageSize ≤ m) (hm' : m < 2 ^ 32) (s₀ : State M) :
    ∃ s₁, pmmInit m s₀ = .ok () s₁ ∧ ∀ s, Reach (· = s₁) PmmStep s →
      s.pmm.freePages = ((Finset.range s.pmm.totalPages).filter fun i => s.pmm.bit i = false).card ∧
      (∀ i, s.pmm.totalPages ≤ i → i < bitmapBits → s.pmm.bit i = true) ∧
      (∀ i s', pmmAllocPage s ≠ .error (.outOfBounds i) s' ∧
        ∀ a, a < 2 ^ 32 → pmmFreePage a s ≠ .error (.outOfBounds i) s') ∧
      (∀ a s', pmmAllocPage s = .ok a s' →
        a % 4096 = 0 ∧ pmmStart ≤ a ∧ a < pmmStart + s.pmm.totalPages * 4096 ∧
        s.pmm.bit (frameIndex a) = false ∧ (∀ j, j < frameIndex a → s.pmm.bit j = true) ∧
        ∀ tr t tr', Trace PmmStep s' (tr ++ (.alloc a, t) :: tr') →
          ∃ b u, (PmmOp.free b, u) ∈ tr ∧ a ≤ b ∧ b < a + pageSize) := by
  obtain ⟨p, hr, ht, hf, hb⟩ := pmmInit_spec hm hm' s₀
  refine ⟨_, hr, fun s hs => ?_⟩
  have hinv : s.pmm.Inv := Reach.inv (I := fun s => s.pmm.Inv)
    (fun s e => by rw [e]; exact pmmInit_inv ht hf hb) (fun _ _ _ h hs => hs.inv h) hs
  refine ⟨hinv.count, hinv.top, hinv.in_bounds, fun a s' ha => ?_⟩
  obtain ⟨i, hi, hbit, hmin, rfl, -⟩ := pmmAllocPage_ok hinv ha
  rw [frameIndex_frame]
  refine ⟨?_, by omega, ?_, hbit, hmin, fun tr t tr' => pmmAlloc_again hinv ha⟩
  · simp only [pmmStart, pageSize]
    omega
  · simp only [pageSize]
    omega

/-- A run at the size the kernel boots with: the first frame past the reserve is handed out, freed
and handed out again. -/
theorem pmm_run_boot :
    ∃ s₁ s₂ s₃ s₄ s₅ : State Unit, pmmInit pmmMaxBytes (State.boot ()) = .ok () s₁ ∧
    pmmAllocPage s₁ = .ok 0x200000 s₂ ∧
    Trace PmmStep s₂ [(.alloc 0x201000, s₃), (.free 0x200000, s₄), (.alloc 0x200000, s₅)] := by
  obtain ⟨p, hr, ht, hf, hb⟩ :=
    pmmInit_spec (m := pmmMaxBytes) (by decide) (by decide) (State.boot ())
  have htot : p.totalPages = 2304 := by
    rw [ht]
    decide
  have hbit : ∀ j, p.bit j = decide (j < 256 ∨ 2304 ≤ j) := by
    intro j
    rw [hb, show min reservePages (pagesOf pmmMaxBytes) = 256 by decide,
      show pagesOf pmmMaxBytes = 2304 by decide]
  have hinv : p.Inv := pmmInit_inv ht hf hb
  have hbits : ∀ j, j < 2304 → j < bitmapBits := fun j hj => hinv.lt_bits (by rw [htot]; exact hj)
  obtain ⟨q, hq⟩ : ∃ q, q = p.take 256 := ⟨_, rfl⟩
  have hqinv : q.Inv := hq ▸ hinv.take (by rw [htot]; decide) (by rw [hbit]; decide)
  have hqtot : q.totalPages = 2304 := by rw [hq, p.take_totalPages, htot]
  have hqbit : ∀ j, q.bit j = if j = 256 then true else p.bit j := fun j =>
    hq ▸ p.bit_take j (hbits 256 (by decide))
  obtain ⟨r, hr'⟩ : ∃ r, r = q.take 257 := ⟨_, rfl⟩
  have hrinv : r.Inv := hr' ▸ hqinv.take (by rw [hqtot]; decide) (by rw [hqbit, hbit]; decide)
  have hrtot : r.totalPages = 2304 := by rw [hr', q.take_totalPages, hqtot]
  have hrbit : ∀ j, r.bit j = if j = 257 then true else q.bit j := fun j =>
    hr' ▸ q.bit_take j (hbits 257 (by decide))
  have hr256 : r.bit 256 = true := by
    rw [hrbit, hqbit]
    rfl
  have hrlt : 256 < r.totalPages := by
    rw [hrtot]
    decide
  have h₁ : pmmAllocPage ({ State.boot () with pmm := p } : State Unit) =
      .ok 0x200000 { State.boot () with pmm := q } :=
    hq ▸ pmmAllocPage_lowest hinv (i := 256) (by rw [htot]; decide)
      (by rw [hbit]; decide) fun j hj => by
      rw [hbit]
      exact decide_eq_true (.inl hj)
  have h₂ : pmmAllocPage ({ State.boot () with pmm := q } : State Unit) =
      .ok 0x201000 { State.boot () with pmm := r } :=
    hr' ▸ pmmAllocPage_lowest hqinv (i := 257) (by rw [hqtot]; decide)
      (by rw [hqbit, hbit]; decide) fun j hj => by
      rw [hqbit, hbit]
      split
      · rfl
      · exact decide_eq_true (.inl (by omega))
  have h₃ : pmmFreePage 0x200000 ({ State.boot () with pmm := r } : State Unit) =
      .ok () { State.boot () with pmm := r.give 256 } :=
    pmmFreePage_used (i := 256) hrinv hrlt hr256
  have h₄ : pmmAllocPage ({ State.boot () with pmm := r.give 256 } : State Unit) =
      .ok 0x200000 { State.boot () with pmm := (r.give 256).take 256 } := by
    refine pmmAllocPage_lowest (hrinv.give hrlt hr256) (i := 256)
      (by rw [r.give_totalPages]; exact hrlt) ?_ ?_
    · exact (r.bit_give 256 (hbits 256 (by decide))).trans (if_pos rfl)
    · intro j hj
      refine (r.bit_give j (hbits 256 (by decide))).trans ?_
      rw [if_neg (by omega), hrbit, if_neg (by omega), hqbit, if_neg (by omega), hbit]
      exact decide_eq_true (.inl hj)
  exact ⟨_, _, _, _, _, hr, h₁, h₂, ⟨by decide, h₃⟩, h₄, trivial⟩

/-- The contract over a run at the size the kernel boots with. -/
theorem pmm_contract_boot :
    ∃ s₁ s₂ s₃ s₄ s₅ : State Unit, pmmInit pmmMaxBytes (State.boot ()) = .ok () s₁ ∧
    Trace PmmStep s₁ [(.alloc 0x200000, s₂), (.alloc 0x201000, s₃),
      (.free 0x200000, s₄), (.alloc 0x200000, s₅)] ∧
    s₅.pmm.freePages =
      ((Finset.range s₅.pmm.totalPages).filter fun i => s₅.pmm.bit i = false).card ∧
    ∃ b u, (PmmOp.free b, u) ∈ [(.alloc 0x201000, s₃), (.free 0x200000, s₄)] ∧
    0x200000 ≤ b ∧ b < 0x201000 := by
  obtain ⟨s₁, s₂, s₃, s₄, s₅, hr, h₁, h₂, h₃, h₄, -⟩ := pmm_run_boot
  obtain ⟨t, hr', h⟩ := pmm_contract (m := pmmMaxBytes) (by decide) (by decide) (State.boot ())
  rw [hr] at hr'
  cases hr'
  have hs₄ : Reach (· = s₁) PmmStep s₄ :=
    .step (i := .free _) (.step (i := .alloc _) (.step (i := .alloc _) (.init rfl) h₁) h₂) h₃
  have hs₅ : Reach (· = s₁) PmmStep s₅ := .step (i := .alloc _) hs₄ h₄
  exact ⟨s₁, s₂, s₃, s₄, s₅, hr, ⟨h₁, h₂, h₃, h₄, trivial⟩, (h s₅ hs₅).1,
    ((h s₁ (.init rfl)).2.2.2 _ _ h₁).2.2.2.2.2 [(.alloc 0x201000, s₃), (.free 0x200000, s₄)] s₅ []
      ⟨h₂, h₃, h₄, trivial⟩⟩

/-! ## The reserved frames

The frames of the kernel image are set aside by their bits alone, and
`pmm_free_page` clears any bit below `total_pages`. -/

/-- An address of the megabyte that `pmm_init` sets aside. -/
def InReserve (a : Nat) : Prop := pmmStart ≤ a ∧ a < pmmStart + 1024 * 1024

/-- The next allocation hands out no reserved frame. -/
def ReserveKept (s : State M) : Prop := ∀ a s', pmmAllocPage s = .ok a s' → ¬ InReserve a

/-- The call does not free a frame of the reserve. -/
def SparesReserve (s : State M) (op : PmmOp) : Prop :=
  ∀ a, op = .free a → InReserve a → s.pmm.totalPages ≤ frameIndex a

/-- Every bit of the reserve is set. -/
def Pmm.Reserved (p : Pmm) : Prop := ∀ j, j < reservePages → p.bit j = true

theorem inReserve_iff {a : Nat} : InReserve a ↔ pmmStart ≤ a ∧ frameIndex a < reservePages := by
  simp only [InReserve, frameIndex, pmmStart, pageSize, reservePages]
  omega

theorem reserveKept_iff {s : State M} (h : s.pmm.Inv) : ReserveKept s ↔ s.pmm.Reserved := by
  constructor
  · intro hkept j hj
    cases hb : s.pmm.bit j with
    | true => rfl
    | false =>
      have hlt : j < s.pmm.totalPages := by
        by_contra hge
        have hbits : j < bitmapBits := by
          simp only [reservePages, pageSize] at hj
          simp only [bitmapBits, bitmapWords, pmmMaxBytes, pageSize]
          omega
        rw [h.top j (by omega) hbits] at hb
        cases hb
      -- the lowest free frame is at most `j`
      rcases pmmAllocPage_spec h with ⟨i, -, -, hmin, he⟩ | ⟨hall, -⟩
      · refine absurd (inReserve_iff.mpr ⟨by omega, ?_⟩) (hkept _ _ he)
        rw [frameIndex_frame]
        by_contra hge
        rw [hmin j (by omega)] at hb
        cases hb
      · rw [hall j hlt] at hb
        cases hb
  · intro hres a s' ha hin
    obtain ⟨i, -, hb, -, rfl, -⟩ := pmmAllocPage_ok h ha
    rw [inReserve_iff, frameIndex_frame] at hin
    rw [hres i hin.2] at hb
    cases hb

/-- **A step** keeps the reserve exactly when it frees none of its frames. -/
theorem PmmStep.reserved {s s' : State M} {op : PmmOp} (h : s.pmm.Inv) (hres : s.pmm.Reserved)
    (hs : PmmStep s op s') : s'.pmm.Reserved ↔ SparesReserve s op := by
  constructor
  · rintro hres' a rfl hin
    by_contra hlt
    obtain ⟨ha, hr⟩ := hs
    rw [inReserve_iff] at hin
    rcases pmmFreePage_spec h ha with ⟨hout, -⟩ | ⟨-, -, -, he⟩ | ⟨-, hi, -, he⟩
    · omega
    · rw [he] at hr
      cases hr
    · rw [he] at hr
      cases hr
      have hbit := hres' _ hin.2
      rw [s.pmm.bit_give _ (h.lt_bits hi), if_pos rfl] at hbit
      cases hbit
  · intro hsp j hj
    have hout : ∀ b, op = .free b → pmmStart ≤ b → frameIndex b = j → s.pmm.totalPages ≤ j := by
      rintro b hb hlo rfl
      exact hsp b hb (inReserve_iff.mpr ⟨hlo, hj⟩)
    cases op with
    | alloc a => exact hs.bit_kept h (hres j hj) fun b hb => by cases hb
    | free a =>
      obtain ⟨ha, hr⟩ := hs
      rcases pmmFreePage_spec h ha with ⟨-, he⟩ | ⟨-, -, -, he⟩ | ⟨hlo, hi, -, he⟩ <;>
        rw [he] at hr <;> cases hr
      · exact hres j hj
      · have hne : j ≠ frameIndex a := fun heq => by
          have := hout a rfl hlo heq.symm
          omega
        simp only [s.pmm.bit_give j (h.lt_bits hi), if_neg hne, hres j hj]

/-- **When the reserve is kept.** After `pmm_init`, no state of a run lets `pmm_alloc_page`
return a reserved frame if and only if no call of the run frees one. -/
theorem pmm_reserve {m : Nat} (hm : pmmStart + pageSize ≤ m) (hm' : m < 2 ^ 32) (s₀ : State M) :
    ∃ s₁, pmmInit m s₀ = .ok () s₁ ∧ ∀ tr, Trace PmmStep s₁ tr →
      (ReserveKept s₁ ∧ Trace (fun _ _ s => ReserveKept s) s₁ tr ↔ Meets SparesReserve s₁ tr) := by
  obtain ⟨p, hr, ht, hf, hb⟩ := pmmInit_spec hm hm' s₀
  have hinv : p.Inv := pmmInit_inv ht hf hb
  have hres : p.Reserved := by
    intro j hj
    rw [hb j]
    exact decide_eq_true (by omega)
  refine ⟨_, hr, fun tr htr => ?_⟩
  have hrun := Trace.iff_meets (I := fun s : State M => s.pmm.Inv ∧ s.pmm.Reserved)
    (G := fun _ _ s => ReserveKept s)
    (fun s op s' hI hs => (reserveKept_iff (hs.inv hI.1)).trans (hs.reserved hI.1 hI.2))
    (fun s op s' hI hs hc => ⟨hs.inv hI.1, (hs.reserved hI.1 hI.2).mpr hc⟩)
    (s := { s₀ with pmm := p }) ⟨hinv, hres⟩ htr
  rw [hrun]
  exact and_iff_right ((reserveKept_iff hinv).mpr hres)

/-- The run of `pmm_run_boot` keeps the reserve. -/
theorem pmm_reserve_boot :
    ∃ s₁ s₂ s₃ s₄ s₅ : State Unit, pmmInit pmmMaxBytes (State.boot ()) = .ok () s₁ ∧
    Trace PmmStep s₁ [(.alloc 0x200000, s₂), (.alloc 0x201000, s₃),
      (.free 0x200000, s₄), (.alloc 0x200000, s₅)] ∧
    ReserveKept s₂ ∧ ReserveKept s₃ ∧ ReserveKept s₄ ∧ ReserveKept s₅ := by
  obtain ⟨s₁, s₂, s₃, s₄, s₅, hr, h₁, h₂, h₃, h₄, -⟩ := pmm_run_boot
  obtain ⟨t, hr', h⟩ := pmm_reserve (m := pmmMaxBytes) (by decide) (by decide) (State.boot ())
  rw [hr] at hr'
  cases hr'
  have hrun : Trace PmmStep s₁
      [(.alloc 0x200000, s₂), (.alloc 0x201000, s₃), (.free 0x200000, s₄), (.alloc 0x200000, s₅)] :=
    ⟨h₁, h₂, h₃, h₄, trivial⟩
  have hspares : Meets SparesReserve s₁
      [(.alloc 0x200000, s₂), (.alloc 0x201000, s₃), (.free 0x200000, s₄),
        (.alloc 0x200000, s₅)] := by
    refine Meets.of_forall fun e he t a ha hin => ?_
    rw [inReserve_iff] at hin
    simp only [List.mem_cons, List.not_mem_nil, or_false] at he
    rcases he with rfl | rfl | rfl | rfl <;> cases ha
    exact absurd hin.2 (by decide)
  obtain ⟨-, k₂, k₃, k₄, k₅, -⟩ := (h _ hrun).mpr hspares
  exact ⟨s₁, s₂, s₃, s₄, s₅, hr, hrun, k₂, k₃, k₄, k₅⟩

/-- `pmm_free_page(0x100000)` makes the next allocation return the first frame of the
kernel image. -/
theorem pmm_gives_kernel_frame : ∃ s₁ s₂ s₃ : State Unit,
    pmmInit pmmMaxBytes (State.boot ()) = .ok () s₁ ∧ PmmStep s₁ (.free 0x100000) s₂ ∧
    PmmStep s₂ (.alloc 0x100000) s₃ ∧ InReserve 0x100000 := by
  obtain ⟨p, hr, ht, hf, hb⟩ := pmmInit_spec (m := pmmMaxBytes) (by decide) (by decide)
    (State.boot ())
  have hinv : ({ State.boot () with pmm := p } : State Unit).pmm.Inv := pmmInit_inv ht hf hb
  have hbits : (0 : Nat) < bitmapBits := by decide
  rcases pmmFreePage_spec hinv (a := 0x100000) (by decide) with ⟨hout, -⟩ | ⟨-, -, hbit, -⟩ |
    ⟨-, hi, hbit, he⟩
  · rcases hout with hlow | hhigh
    · exact absurd hlow (by decide)
    · have hhigh : p.totalPages ≤ 0 := hhigh
      rw [ht] at hhigh
      exact absurd hhigh (by decide)
  · have hbit : p.bit 0 = false := hbit
    rw [hb] at hbit
    exact absurd hbit (by decide)
  · have halloc : pmmAllocPage ({ State.boot () with pmm := p.give 0 } : State Unit) =
        .ok 0x100000 { State.boot () with pmm := (p.give 0).take 0 } :=
      pmmAllocPage_lowest (hinv.give hi hbit) (i := 0) (by rw [Pmm.give_totalPages]; exact hi)
        ((p.bit_give 0 hbits).trans (if_pos rfl)) fun j hj => absurd hj (Nat.not_lt_zero j)
    exact ⟨_, _, _, hr, ⟨by decide, he⟩, halloc, by decide, by decide⟩

end Kfs
