import Kfs.Lib.Bytes

/-!
# Marker words

An allocator that marks its headers with a word `k` and later trusts any word
`k` it finds depends on which four consecutive bytes of memory read `k`,
aligned or not. A word is inert if neither of its ends is a byte of the marker:
storing it completes no marker, whatever lies beside it (`Quiet.store`). A marker
of four different bytes cannot overlap itself, so storing one makes one
(`Quiet.mark`). `MarkStores` is any number of such stores.
-/

namespace Kfs.Lib

def byteOf (w i : Nat) : Nat := w / 2 ^ (8 * i) % 256

theorem load32_byte (m : Mem) (u : Nat) {i : Nat} (hi : i < 4) :
    byteOf (load32 m u) i = (m (u + i)).toNat := by
  have h0 := (m u).isLt
  have h1 := (m (u + 1)).isLt
  have h2 := (m (u + 2)).isLt
  have h3 := (m (u + 3)).isLt
  unfold byteOf load32
  obtain rfl | rfl | rfl | rfl : i = 0 ∨ i = 1 ∨ i = 2 ∨ i = 3 := by omega
  all_goals simp only [Nat.add_zero, Nat.mul_zero, Nat.pow_zero, Nat.reduceMul, Nat.reducePow] at *
  all_goals omega

theorem byteOf_mod (v : Nat) {i : Nat} (hi : i < 4) : byteOf (v % 2 ^ 32) i = byteOf v i := by
  unfold byteOf
  obtain rfl | rfl | rfl | rfl : i = 0 ∨ i = 1 ∨ i = 2 ∨ i = 3 := by omega
  all_goals simp only [Nat.mul_zero, Nat.pow_zero, Nat.reduceMul, Nat.reducePow]
  all_goals omega

theorem store32_byte (m : Mem) (a v : Nat) {i : Nat} (hi : i < 4) :
    (store32 m a v (a + i)).toNat = byteOf v i := by
  rw [← load32_byte _ _ hi, load32_store32_mod, byteOf_mod v hi]

/-- Neither end of the word `w` is a byte of `k`. -/
def Inert (k w : Nat) : Prop := ∀ i, i < 4 → byteOf w 0 ≠ byteOf k i ∧ byteOf w 3 ≠ byteOf k i

instance (k w : Nat) : Decidable (Inert k w) := inferInstanceAs (Decidable (∀ i, i < 4 → _))

/-- The bytes of `k` are different from each other. -/
def Spread (k : Nat) : Prop := ∀ i, i < 4 → ∀ j, j < 4 → byteOf k i = byteOf k j → i = j

instance (k : Nat) : Decidable (Spread k) := inferInstanceAs (Decidable (∀ i, i < 4 → _))

/-- Every marker `k` in `m'` is one of `m`, or lies at an address in `W`. -/
def Quiet (k : Nat) (W : Nat → Prop) (m m' : Mem) : Prop :=
  ∀ u, load32 m' u = k → load32 m u = k ∨ W u

variable {k : Nat} {W : Nat → Prop} {m m' m'' : Mem}

theorem Quiet.refl (k : Nat) (W : Nat → Prop) (m : Mem) : Quiet k W m m := fun _ h => .inl h

theorem Quiet.trans (h : Quiet k W m m') (h' : Quiet k W m' m'') : Quiet k W m m'' := by
  intro u hu
  rcases h' u hu with hu | hu
  · exact h u hu
  · exact .inr hu

theorem Quiet.mono {W' : Nat → Prop} (h : Quiet k W m m') (hW : ∀ u, W u → W' u) :
    Quiet k W' m m' := fun u hu => (h u hu).imp_right (hW u)

/-- Where a marker overlaps a store, it shares a byte with it. -/
theorem marker_overlap {a v u : Nat} (hu : load32 (store32 m a v) u = k) (h1 : u < a + 4)
    (h2 : a < u + 4) : (u ≤ a ∧ byteOf k (a - u) = byteOf v 0) ∨
      (a < u ∧ byteOf k (a + 3 - u) = byteOf v 3 ∧ byteOf k 0 = byteOf v (u - a)) := by
  by_cases hle : u ≤ a
  · left
    have hk := load32_byte (store32 m a v) u (i := a - u) (by omega)
    have hv := store32_byte m a v (i := 0) (by omega)
    rw [hu, show u + (a - u) = a + 0 by omega, hv] at hk
    exact ⟨hle, hk⟩
  · right
    have hk := load32_byte (store32 m a v) u (i := a + 3 - u) (by omega)
    have hv := store32_byte m a v (i := 3) (by omega)
    have hk' := load32_byte (store32 m a v) u (i := 0) (by omega)
    have hv' := store32_byte m a v (i := u - a) (by omega)
    rw [hu, show u + (a + 3 - u) = a + 3 by omega, hv] at hk
    rw [hu, show u + 0 = a + (u - a) by omega, hv'] at hk'
    exact ⟨by omega, hk, hk'⟩

/-- **An inert word** completes no marker. -/
theorem Inert.apart {a v u : Nat} (hv : Inert k v) (hu : load32 (store32 m a v) u = k) :
    u + 4 ≤ a ∨ a + 4 ≤ u := by
  by_contra hover
  rcases marker_overlap hu (by omega) (by omega) with ⟨hle, hb⟩ | ⟨hlt, hb, -⟩
  · exact (hv (a - u) (by omega)).1 hb.symm
  · exact (hv (a + 3 - u) (by omega)).2 hb.symm

theorem Quiet.store {a v : Nat} (h : Quiet k W m m') (hv : Inert k v) :
    Quiet k W m (store32 m' a v) := by
  intro u hu
  have hapart := hv.apart hu
  rw [load32_store32_ne hapart] at hu
  exact h u hu

/-- **The marker itself** makes one marker. -/
theorem Quiet.mark {a : Nat} (h : Quiet k W m m') (hk : Spread k) (ha : W a) :
    Quiet k W m (store32 m' a k) := by
  intro u hu
  by_cases hover : u + 4 ≤ a ∨ a + 4 ≤ u
  · rw [load32_store32_ne hover] at hu
    exact h u hu
  right
  suffices u = a by rwa [this]
  rcases marker_overlap hu (by omega) (by omega) with ⟨hle, hb⟩ | ⟨hlt, -, hb⟩
  · have := hk (a - u) (by omega) 0 (by omega) hb
    omega
  · have := hk 0 (by omega) (u - a) (by omega) hb
    omega

/-- A byte that the word `k` does not hold. -/
def InertByte (k : Nat) (b : BitVec 8) : Prop := ∀ i, i < 4 → b.toNat ≠ byteOf k i

theorem Inert.low {u : Nat} (h : Inert k (load32 m u)) : InertByte k (m u) := by
  intro i hi
  have hbyte := load32_byte m u (i := 0) (by omega)
  rw [Nat.add_zero] at hbyte
  rw [← hbyte]
  exact (h i hi).1

theorem Inert.high {u : Nat} (h : Inert k (load32 m u)) : InertByte k (m (u + 3)) := by
  intro i hi
  rw [← load32_byte m u (i := 3) (by omega)]
  exact (h i hi).2

/-- **Any other word between inert bytes** completes no marker. -/
theorem Quiet.between {a v : Nat} (h : Quiet k W m m') (hv : v % 2 ^ 32 ≠ k)
    (hlo : InertByte k (m' a)) (hhi : InertByte k (m' (a + 5))) :
    Quiet k W m (store32 m' (a + 1) v) := by
  intro u hu
  by_cases hover : u + 4 ≤ a + 1 ∨ a + 1 + 4 ≤ u
  · rw [load32_store32_ne hover] at hu
    exact h u hu
  exfalso
  by_cases hlow : u ≤ a
  · have hbyte := load32_byte (store32 m' (a + 1) v) u (i := a - u) (by omega)
    rw [hu, show u + (a - u) = a by omega, store32_other (by omega)] at hbyte
    exact hlo (a - u) (by omega) hbyte.symm
  by_cases heq : u = a + 1
  · rw [heq, load32_store32_mod] at hu
    exact hv hu
  · have hbyte := load32_byte (store32 m' (a + 1) v) u (i := a + 5 - u) (by omega)
    rw [hu, show u + (a + 5 - u) = a + 5 by omega, store32_other (by omega)] at hbyte
    exact hhi (a + 5 - u) (by omega) hbyte.symm

/-- `m'` is `m` after some stores at multiples of 4, of inert words and of markers at
addresses in `W`. -/
inductive MarkStores (k : Nat) (W : Nat → Prop) (m : Mem) : Mem → Prop where
  | refl : MarkStores k W m m
  | store {m' : Mem} {a v : Nat} : MarkStores k W m m' → a % 4 = 0 → Inert k v →
      MarkStores k W m (store32 m' a v)
  | mark {m' : Mem} {a : Nat} : MarkStores k W m m' → a % 4 = 0 → W a →
      MarkStores k W m (store32 m' a k)

/-- Stores of inert words only. -/
abbrev InertStores (k : Nat) (m m' : Mem) : Prop := MarkStores k (fun _ => False) m m'

theorem MarkStores.trans (h : MarkStores k W m m') (h' : MarkStores k W m' m'') :
    MarkStores k W m m'' := by
  induction h' with
  | refl => exact h
  | store _ ha hv ih => exact ih.store ha hv
  | mark _ ha hW ih => exact ih.mark ha hW

theorem MarkStores.mono {W' : Nat → Prop} (h : MarkStores k W m m') (hW : ∀ u, W u → W' u) :
    MarkStores k W' m m' := by
  induction h with
  | refl => exact .refl
  | store _ ha hv ih => exact ih.store ha hv
  | mark _ ha hWa ih => exact ih.mark ha (hW _ hWa)

theorem MarkStores.quiet (h : MarkStores k W m m') (hk : Spread k) : Quiet k W m m' := by
  induction h with
  | refl => exact Quiet.refl _ _ _
  | store _ _ hv ih => exact ih.store hv
  | mark _ _ hW ih => exact ih.mark hk hW

theorem MarkStores.inert (h : MarkStores k W m m') {u : Nat} (hu : u % 4 = 0) (hW : ¬ W u)
    (hi : Inert k (load32 m u)) : Inert k (load32 m' u) := by
  induction h with
  | refl => exact hi
  | @store m' a v _ ha hv ih =>
    by_cases hau : a = u
    · subst hau
      rw [load32_store32_mod]
      intro i hi
      rw [byteOf_mod v (by omega), byteOf_mod v (by omega)]
      exact hv i hi
    · rw [load32_store32_ne (by omega)]
      exact ih
  | @mark m' a _ ha hWa ih =>
    have hau : a ≠ u := fun hau => hW (hau ▸ hWa)
    rw [load32_store32_ne (by omega)]
    exact ih

end Kfs.Lib
