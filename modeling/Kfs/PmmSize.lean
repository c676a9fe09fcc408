import Kfs.PmmInv

/-!
# `pmm_init` over all memory sizes

`pmm_init` caps the size it is given from above and subtracts `PMM_START` without
a look at what is below it. From `PMM_START` on, the frames it sets up end inside
memory, or there is none and it panics. Below `PMM_START` the difference wraps
around to almost 4 GB, and the loop that clears the bits of the frames runs past
the end of the bitmap (`pmm_init_safe`).
-/

namespace Kfs

open Kfs.Lib

variable {M : Type} {m : Nat}

/-- `pmm_init(m)` panics, or returns with frames that end inside memory and a counter of
all of them but the reserved ones; it writes no word outside the bitmap. -/
def PmmInitSafe (m : Nat) (s : State M) : Prop :=
  ((∃ fmt args s', pmmInit m s = .error (.panic fmt args) s') ∨
    ∃ s', pmmInit m s = .ok () s' ∧
      pmmStart + s'.pmm.totalPages * pageSize ≤ min m pmmMaxBytes ∧
      s'.pmm.freePages = s'.pmm.totalPages - min 256 s'.pmm.totalPages) ∧
  ∀ i s', pmmInit m s ≠ .error (.outOfBounds i) s'

theorem capped (m : Nat) : (if m > pmmMaxBytes then pmmMaxBytes else m) = min m pmmMaxBytes := by
  split <;> omega

/-! ## From `PMM_START` on -/

theorem pmmInit_none (h1 : pmmStart ≤ m) (h2 : m < pmmStart + pageSize) (s : State M) :
    ∃ s', pmmInit m s = .error (.panic "PMM: no memory available after PMM_START\n" []) s' := by
  have havail : sub32 (min m pmmMaxBytes) pmmStart / pageSize = 0 := by
    simp only [pmmStart, pageSize, pmmMaxBytes] at *
    rw [sub32_eq (by omega) (by omega)]
    omega
  refine ⟨{ s with pmm := { s.pmm with pmmLimitBytes := min m pmmMaxBytes } }, ?_⟩
  unfold pmmInit
  simp only [capped, havail]
  rw [modify_bind_apply, if_pos trivial]
  rfl

theorem pmmInit_safe (h : pmmStart ≤ m) (hm : m < 2 ^ 32) (s : State M) : PmmInitSafe m s := by
  by_cases hframe : pmmStart + pageSize ≤ m
  · obtain ⟨p, hr, htotal, hfree, -⟩ := pmmInit_spec hframe hm s
    refine ⟨.inr ⟨_, hr, ?_, ?_⟩, fun i s' he => ?_⟩
    · simp only [htotal, pagesOf, pmmStart, pageSize, pmmMaxBytes] at *
      omega
    · simp only [hfree, htotal, reservePages, pageSize]
      omega
    · rw [hr] at he
      cases he
  · obtain ⟨s', hr⟩ := pmmInit_none h (by omega) s
    refine ⟨.inl ⟨_, _, _, hr⟩, fun i t he => ?_⟩
    rw [hr] at he
    cases he

/-! ## Below `PMM_START` -/

theorem clrBit_out {s : State M} : clrBit bitmapBits s = .error (.outOfBounds bitmapWords) s := by
  unfold clrBit bitmapGet
  rfl

theorem wrapped_pages (h : m < pmmStart) :
    bitmapBits < sub32 (min m pmmMaxBytes) pmmStart / pageSize := by
  simp only [bitmapBits, bitmapWords, pmmMaxBytes, pageSize, pmmStart, sub32] at *
  omega

theorem pmmInit_out (h : m < pmmStart) (s : State M) :
    ∃ s', pmmInit m s = .error (.outOfBounds bitmapWords) s' := by
  have hpages := wrapped_pages h
  unfold pmmInit
  simp only [capped]
  rw [modify_bind_apply, if_neg (by omega), modify_bind_apply]
  obtain ⟨s₂, hr₂, -⟩ := fillOnes_spec (M := M) { s with pmm := { s.pmm with
    pmmLimitBytes := min m pmmMaxBytes
    totalPages := sub32 (min m pmmMaxBytes) pmmStart / pageSize, freePages := 0 } }
  rw [bind_of_ok hr₂]
  obtain ⟨s₃, hr₃⟩ : ∃ s₃, forUp (fun i => do clrBit i; incFreePages) 0
      (sub32 (min m pmmMaxBytes) pmmStart / pageSize) s₂ =
        .error (.outOfBounds bitmapWords) s₃ := by
    -- every round below `bitmapBits` returns, and the next one does not
    apply forUp_stops (fun _ _ => True) (Nat.zero_le bitmapBits)
    · omega
    · trivial
    · exact fun i t _ hi _ => ⟨_, bind_of_ok (clrBit_eq hi t), trivial⟩
    · exact fun t _ => ⟨t, bind_of_error clrBit_out⟩
  exact ⟨s₃, bind_of_error hr₃⟩

/-- **When `pmm_init` is safe**: for every 32-bit memory size and in every state, exactly when
memory reaches `PMM_START`. -/
theorem pmm_init_safe (hm : m < 2 ^ 32) (s : State M) : PmmInitSafe m s ↔ pmmStart ≤ m := by
  refine ⟨fun h => ?_, fun h => pmmInit_safe h hm s⟩
  rcases Nat.lt_or_ge m pmmStart with hlow | hlow
  · obtain ⟨s', hr⟩ := pmmInit_out hlow s
    exact absurd hr (h.2 _ _)
  · exact hlow

/-- The size the kernel boots with. -/
theorem pmm_init_safe_boot : PmmInitSafe pmmMaxBytes (State.boot ()) :=
  (pmm_init_safe (by decide) _).mpr (by decide)

/-- On a machine with no memory `pmm_init` runs past the bitmap. -/
theorem pmm_init_leaves_bitmap :
    (∃ s', pmmInit 0 (State.boot ()) = .error (.outOfBounds 81) s') ∧
      ¬ PmmInitSafe 0 (State.boot ()) := by
  obtain ⟨s', hr⟩ := pmmInit_out (m := 0) (by decide) (State.boot ())
  exact ⟨⟨s', hr⟩, fun h => h.2 _ _ hr⟩

end Kfs
