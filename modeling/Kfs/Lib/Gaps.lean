import Kfs.Lib.Tiling

/-!
# Gaps between the used blocks of a tiling

A `Gap` of a property is a maximal run of consecutive numbers that have it. An
address of a tiled range is `Vacant` when no used block covers it. In a tiling
without two adjacent free blocks every free block is a gap of the vacant
addresses, header included, and there are no others (`gap_iff_free`): a search
over the list of blocks is then a search over free ranges of addresses.
-/

namespace Kfs.Lib

/-- A maximal run `[lo, hi)` of numbers with `P`. -/
structure Gap (P : Nat → Prop) (lo hi : Nat) : Prop where
  nonempty : lo < hi
  inside : ∀ x, lo ≤ x → x < hi → P x
  left : ∀ x, x + 1 = lo → ¬ P x
  right : ¬ P hi

theorem Gap.unique {P : Nat → Prop} {lo hi lo' hi' x : Nat} (h : Gap P lo hi) (h' : Gap P lo' hi')
    (hx : lo ≤ x ∧ x < hi) (hx' : lo' ≤ x ∧ x < hi') : lo = lo' ∧ hi = hi' := by
  have hlo : ¬ lo < lo' := fun hlt =>
    h'.left (lo' - 1) (by omega) (h.inside _ (by omega) (by omega))
  have hlo' : ¬ lo' < lo := fun hlt =>
    h.left (lo - 1) (by omega) (h'.inside _ (by omega) (by omega))
  have hhi : ¬ hi < hi' := fun hlt => h.right (h'.inside _ (by omega) (by omega))
  have hhi' : ¬ hi' < hi := fun hlt => h'.right (h.inside _ (by omega) (by omega))
  omega

variable {h a e : Nat} {bs : List Blk}

/-- `x` is a byte of the block or of its header. -/
def Blk.Covers (h : Nat) (b : Blk) (x : Nat) : Prop := b.addr ≤ x ∧ x < b.addr + h + b.size

/-- `x` lies in `[a, e)` and in no used block. -/
def Vacant (h a e : Nat) (bs : List Blk) (x : Nat) : Prop :=
  a ≤ x ∧ x < e ∧ ∀ b ∈ bs, b.free = false → ¬ b.Covers h x

theorem Tiled.covered (ht : Tiled h a bs e) {x : Nat} (h1 : a ≤ x) (h2 : x < e) :
    ∃ b ∈ bs, b.Covers h x := by
  induction bs generalizing a with
  | nil =>
    have : a = e := ht
    omega
  | cons b bs ih =>
    obtain ⟨haddr, hrest⟩ := ht
    by_cases hx : x < a + h + b.size
    · exact ⟨b, List.mem_cons_self, by omega, by omega⟩
    · obtain ⟨c, hc, hcov⟩ := ih hrest (by omega)
      exact ⟨c, List.mem_cons_of_mem _ hc, hcov⟩

theorem vacant_iff (ht : Tiled h a bs e) {x : Nat} :
    Vacant h a e bs x ↔ ∃ b ∈ bs, b.free = true ∧ b.Covers h x := by
  constructor
  · rintro ⟨h1, h2, hno⟩
    obtain ⟨b, hb, hcov⟩ := ht.covered h1 h2
    cases hf : b.free with
    | true => exact ⟨b, hb, hf, hcov⟩
    | false => exact absurd hcov (hno b hb hf)
  · rintro ⟨b, hb, hf, hcov⟩
    have hbnd := ht.bounds b hb
    unfold Blk.Covers at hcov
    refine ⟨by omega, by omega, fun c hc hcf hcov' => ?_⟩
    unfold Blk.Covers at hcov'
    rcases ht.sep hb hc with rfl | hsep | hsep
    · rw [hf] at hcf
      cases hcf
    · omega
    · omega

theorem Coalesced.of_touch (hh : 0 < h) (ht : Tiled h a bs e) (hc : Coalesced bs) {b c : Blk}
    (hb : b ∈ bs) (hcm : c ∈ bs) (htouch : b.addr + h + b.size = c.addr) :
    b.free = false ∨ c.free = false := by
  induction bs generalizing a with
  | nil => cases hb
  | cons d ds ih =>
    have hd := ht.1
    rcases List.mem_cons.mp hb with rfl | hb'
    · rcases List.mem_cons.mp hcm with rfl | hcm'
      · omega
      -- `c` starts where the second block does, so it is the second block
      cases ds with
      | nil => cases hcm'
      | cons f fs =>
        have hf := ht.2.1
        rcases List.mem_cons.mp hcm' with rfl | hcm'
        · exact (List.isChain_cons_cons.mp hc).1
        · have := ht.2.tail_addr c hcm'
          omega
    · rcases List.mem_cons.mp hcm with rfl | hcm'
      · have := ht.tail_addr b hb'
        omega
      · exact ih ht.2 hc.tail hb' hcm'

theorem gap_of_free (hh : 0 < h) (ht : Tiled h a bs e) (hc : Coalesced bs) {b : Blk} (hb : b ∈ bs)
    (hf : b.free = true) : Gap (Vacant h a e bs) b.addr (b.addr + h + b.size) where
  nonempty := by omega
  inside x h1 h2 := (vacant_iff ht).mpr ⟨b, hb, hf, h1, h2⟩
  left x hx hvac := by
    obtain ⟨c, hcm, hcf, hcov⟩ := (vacant_iff ht).mp hvac
    unfold Blk.Covers at hcov
    -- the block before `b` would be free too
    have htouch : c.addr + h + c.size = b.addr := by
      rcases ht.sep hcm hb with rfl | hsep | hsep <;> omega
    rcases hc.of_touch hh ht hcm hb htouch with hno | hno
    · rw [hcf] at hno
      cases hno
    · rw [hf] at hno
      cases hno
  right hvac := by
    obtain ⟨c, hcm, hcf, hcov⟩ := (vacant_iff ht).mp hvac
    unfold Blk.Covers at hcov
    have htouch : b.addr + h + b.size = c.addr := by
      rcases ht.sep hcm hb with rfl | hsep | hsep <;> omega
    rcases hc.of_touch hh ht hb hcm htouch with hno | hno
    · rw [hf] at hno
      cases hno
    · rw [hcf] at hno
      cases hno

/-- **The gaps of a coalesced tiling are its free blocks.** -/
theorem gap_iff_free (hh : 0 < h) (ht : Tiled h a bs e) (hc : Coalesced bs) {lo hi : Nat} :
    Gap (Vacant h a e bs) lo hi ↔
      ∃ b ∈ bs, b.free = true ∧ lo = b.addr ∧ hi = b.addr + h + b.size := by
  constructor
  · intro hgap
    have hlt := hgap.nonempty
    obtain ⟨b, hb, hf, hcov⟩ := (vacant_iff ht).mp (hgap.inside lo (Nat.le_refl lo) hlt)
    have hsame := hgap.unique (gap_of_free hh ht hc hb hf) ⟨Nat.le_refl lo, hlt⟩ hcov
    exact ⟨b, hb, hf, hsame⟩
  · rintro ⟨b, hb, hf, rfl, rfl⟩
    exact gap_of_free hh ht hc hb hf

theorem Tiled.first_lowest {xs ys : List Blk} {b c : Blk} (ht : Tiled h a (xs ++ b :: ys) e)
    (hc : c ∈ b :: ys) : b.addr ≤ c.addr := by
  obtain ⟨d, -, hd⟩ := tiled_append.mp ht
  have := hd.bounds c hc
  have := hd.1
  omega

end Kfs.Lib
