import Kfs.Machine

/-!
# The physical frame allocator (`pmm.c`)

One bit a frame, `1` for used; bit `i` stands for the frame at
`PMM_START + i * PAGE_SIZE`. `bitmap` is an array of `bitmapWords` words, and
an index outside it stops the run with `outOfBounds`.

`Pmm.bit` and `Pmm.mark` read and write one bit of the packed array; the
lemmas below say that `set_bit`, `clr_bit` and `tst_bit` are just that as long
as the index is below `bitmapBits`.
-/

namespace Kfs

open Kfs.Lib

variable {M : Type}

def bitmapGet (i : Nat) : K M (BitVec 32) := do
  let s ← get
  if h : i < bitmapWords then return s.pmm.bitmap[i]
  throw (.outOfBounds i)

def bitmapSet (i : Nat) (w : BitVec 32) : K M Unit := do
  if h : i < bitmapWords then
    modify fun s => { s with pmm := { s.pmm with bitmap := s.pmm.bitmap.set i w h } }
  else
    throw (.outOfBounds i)

def setBit (idx : Nat) : K M Unit := do
  let w ← bitmapGet (idx >>> 5)
  bitmapSet (idx >>> 5) (w ||| (1#32 <<< (idx &&& 31)))

def clrBit (idx : Nat) : K M Unit := do
  let w ← bitmapGet (idx >>> 5)
  bitmapSet (idx >>> 5) (w &&& ~~~(1#32 <<< (idx &&& 31)))

def tstBit (idx : Nat) : K M Bool := do
  let w ← bitmapGet (idx >>> 5)
  return (w >>> (idx &&& 31)) &&& 1#32 ≠ 0#32

def incFreePages : K M Unit :=
  modify fun s => { s with pmm := { s.pmm with freePages := add32 s.pmm.freePages 1 } }

def decFreePages : K M Unit :=
  modify fun s => { s with pmm := { s.pmm with freePages := sub32 s.pmm.freePages 1 } }

def pmmInit (memSizeBytes : Nat) : K M Unit := do
  let memSizeBytes := if memSizeBytes > pmmMaxBytes then pmmMaxBytes else memSizeBytes
  modify fun s => { s with pmm := { s.pmm with pmmLimitBytes := memSizeBytes } }
  let availableMemory := sub32 memSizeBytes pmmStart
  let availablePages := availableMemory / pageSize
  if availablePages = 0 then
    kpanicFatal "PMM: no memory available after PMM_START\n" []
  modify fun s => { s with pmm := { s.pmm with totalPages := availablePages, freePages := 0 } }
  forUp (fun i => bitmapSet i 0xFFFFFFFF#32) 0 bitmapWords
  forUp (fun i => do clrBit i; incFreePages) 0 availablePages
  let reservePages := 1024 * 1024 / pageSize
  let reservePages := if reservePages > availablePages then availablePages else reservePages
  forUp (fun i => do
    if !(← tstBit i) then
      setBit i
      decFreePages) 0 reservePages

def pmmAllocPage : K M Nat := do
  let s ← get
  match ← findUp (fun i => do return !(← tstBit i)) 0 s.pmm.totalPages with
  | some i =>
    setBit i
    decFreePages
    return add32 pmmStart (i * pageSize % 2 ^ 32)
  | none => kpanicFatal "PMM out of memory\n" []

def pmmFreePage (page : Nat) : K M Unit := do
  if page < pmmStart then return
  let idx := sub32 page pmmStart / pageSize
  let s ← get
  if idx ≥ s.pmm.totalPages then return
  if !(← tstBit idx) then
    kpanicFatal "PMM: double free page %x\n" [page]
  clrBit idx
  incFreePages

/-! ## Single bits -/

@[simp] def bitmapBits : Nat := bitmapWords * 32

/-- Bit `i` of the bitmap: whether frame `i` is in use. -/
def Pmm.bit (p : Pmm) (i : Nat) : Bool :=
  if h : i / 32 < bitmapWords then (p.bitmap[i / 32]).getLsbD (i % 32) else true

/-- The bitmap with bit `i` set to `b`. -/
def Pmm.mark (p : Pmm) (i : Nat) (b : Bool) : Pmm :=
  if h : i / 32 < bitmapWords then
    let w := p.bitmap[i / 32]
    let w' := if b then w ||| (1#32 <<< (i % 32)) else w &&& ~~~(1#32 <<< (i % 32))
    { p with bitmap := p.bitmap.set (i / 32) w' h }
  else p

@[simp] theorem Pmm.mark_totalPages (p : Pmm) (i : Nat) (b : Bool) :
    (p.mark i b).totalPages = p.totalPages := by
  unfold Pmm.mark; split <;> rfl

@[simp] theorem Pmm.mark_freePages (p : Pmm) (i : Nat) (b : Bool) :
    (p.mark i b).freePages = p.freePages := by
  unfold Pmm.mark; split <;> rfl

theorem Pmm.bit_mark (p : Pmm) {i : Nat} (b : Bool) (j : Nat) (hi : i < bitmapBits) :
    (p.mark i b).bit j = if j = i then b else p.bit j := by
  have hw : i / 32 < bitmapWords := by simp at hi ⊢; omega
  unfold Pmm.mark
  rw [dif_pos hw]
  unfold Pmm.bit
  by_cases hj : j / 32 < bitmapWords
  · simp only [hj, ↓reduceDIte]
    by_cases hij : i / 32 = j / 32
    · have hmod : j = i ↔ j % 32 = i % 32 := by omega
      have hlt : j % 32 < 32 := Nat.mod_lt _ (by omega)
      have hlt' : i % 32 < 32 := Nat.mod_lt _ (by omega)
      have hbit : (1#32 <<< (i % 32)).getLsbD (j % 32) = decide (j % 32 = i % 32) := by
        simp only [BitVec.getLsbD_shiftLeft, BitVec.getLsbD_one]
        by_cases h : j % 32 = i % 32
        · simp [h, hlt']
        · simp [h, hlt]
          omega
      simp only [hij, Vector.getElem_set_self, hmod]
      cases b
      · simp only [Bool.false_eq_true, ↓reduceIte, BitVec.getLsbD_and,
          BitVec.getLsbD_not, hbit, hlt]
        by_cases h : j % 32 = i % 32 <;> simp [h]
      · simp only [↓reduceIte, BitVec.getLsbD_or, hbit]
        by_cases h : j % 32 = i % 32 <;> simp [h]
    · have hne : j ≠ i := fun h => hij (by rw [h])
      rw [if_neg hne, Vector.getElem_set_ne _ _ hij]
  · have hne : j ≠ i := by
      rintro rfl
      exact hj hw
    simp only [hj, ↓reduceDIte, hne, ↓reduceIte]

theorem setBit_eq {idx : Nat} (h : idx < bitmapBits) (s : State M) :
    setBit idx s = .ok () { s with pmm := s.pmm.mark idx true } := by
  have h5 : idx >>> 5 = idx / 32 := Nat.shiftRight_eq_div_pow idx 5
  have h31 : idx &&& 31 = idx % 32 := Nat.and_two_pow_sub_one_eq_mod idx 5
  have hw : idx / 32 < bitmapWords := by simp at h ⊢; omega
  unfold setBit bitmapGet bitmapSet Pmm.mark
  simp only [h5, h31, hw, ↓reduceDIte]
  rfl

theorem clrBit_eq {idx : Nat} (h : idx < bitmapBits) (s : State M) :
    clrBit idx s = .ok () { s with pmm := s.pmm.mark idx false } := by
  have h5 : idx >>> 5 = idx / 32 := Nat.shiftRight_eq_div_pow idx 5
  have h31 : idx &&& 31 = idx % 32 := Nat.and_two_pow_sub_one_eq_mod idx 5
  have hw : idx / 32 < bitmapWords := by simp at h ⊢; omega
  unfold clrBit bitmapGet bitmapSet Pmm.mark
  simp only [h5, h31, hw, ↓reduceDIte]
  rfl

theorem tstBit_eq {idx : Nat} (h : idx < bitmapBits) (s : State M) :
    tstBit idx s = .ok (s.pmm.bit idx) s := by
  have h5 : idx >>> 5 = idx / 32 := Nat.shiftRight_eq_div_pow idx 5
  have h31 : idx &&& 31 = idx % 32 := Nat.and_two_pow_sub_one_eq_mod idx 5
  have hw : idx / 32 < bitmapWords := by simp at h ⊢; omega
  have hbit : ∀ (w : BitVec 32) (k : Nat), decide ((w >>> k) &&& 1#32 ≠ 0#32) = w.getLsbD k := by
    intro w k
    rw [show w.getLsbD k = (w >>> k).getLsbD 0 by simp]
    generalize w >>> k = v
    have hv := v.isLt
    rw [Bool.eq_iff_iff]
    simp only [ne_eq, decide_eq_true_eq, BitVec.getLsbD]
    rw [← BitVec.toNat_inj]
    simp [Nat.and_one_is_mod, Nat.testBit_zero]
  unfold tstBit bitmapGet Pmm.bit
  simp only [h5, h31, hw, ↓reduceDIte]
  rw [← hbit]
  rfl

end Kfs
