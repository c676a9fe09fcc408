import Mathlib.Data.Nat.Bitwise

/-!
# Byte memories

A memory is a total map from addresses to bytes. `load32` and `store32` are
the little-endian word accesses of the machine; `storeByte` is what a client
that owns a buffer may do. The frame lemmas say that an access only sees the
four bytes at its address.
-/

namespace Kfs.Lib

abbrev Mem := Nat → BitVec 8

def load32 (m : Mem) (a : Nat) : Nat :=
  (m a).toNat + 2 ^ 8 * (m (a + 1)).toNat + 2 ^ 16 * (m (a + 2)).toNat +
    2 ^ 24 * (m (a + 3)).toNat

def storeByte (m : Mem) (a : Nat) (b : BitVec 8) : Mem := fun x => if x = a then b else m x

/-- Write the word `v % 2 ^ 32` at `a`. -/
def store32 (m : Mem) (a v : Nat) : Mem :=
  storeByte (storeByte (storeByte (storeByte m a (.ofNat 8 v)) (a + 1) (.ofNat 8 (v / 2 ^ 8)))
    (a + 2) (.ofNat 8 (v / 2 ^ 16))) (a + 3) (.ofNat 8 (v / 2 ^ 24))

theorem load32_lt (m : Mem) (a : Nat) : load32 m a < 2 ^ 32 := by
  have h0 := (m a).isLt
  have h1 := (m (a + 1)).isLt
  have h2 := (m (a + 2)).isLt
  have h3 := (m (a + 3)).isLt
  unfold load32
  omega

theorem load32_congr {m m' : Mem} {a : Nat} (h : ∀ x, a ≤ x → x < a + 4 → m' x = m x) :
    load32 m' a = load32 m a := by
  unfold load32
  rw [h a (by omega) (by omega), h (a + 1) (by omega) (by omega),
    h (a + 2) (by omega) (by omega), h (a + 3) (by omega) (by omega)]

@[simp] theorem storeByte_same (m : Mem) (a : Nat) (b : BitVec 8) : storeByte m a b a = b := by
  simp [storeByte]

theorem storeByte_other {m : Mem} {a x : Nat} {b : BitVec 8} (h : x ≠ a) :
    storeByte m a b x = m x := by
  simp [storeByte, h]

theorem store32_other {m : Mem} {a v x : Nat} (h : x < a ∨ a + 4 ≤ x) :
    store32 m a v x = m x := by
  unfold store32
  rw [storeByte_other (by omega), storeByte_other (by omega), storeByte_other (by omega),
    storeByte_other (by omega)]

theorem store32_inside {m m' : Mem} {a v x : Nat} (h1 : a ≤ x) (h2 : x < a + 4) :
    store32 m a v x = store32 m' a v x := by
  obtain rfl | rfl | rfl | rfl : x = a ∨ x = a + 1 ∨ x = a + 2 ∨ x = a + 3 := by omega
  all_goals simp [store32, storeByte]

theorem store32_load32 (m : Mem) (a : Nat) : store32 m a (load32 m a) = m := by
  have h0 := (m a).isLt
  have h1 := (m (a + 1)).isLt
  have h2 := (m (a + 2)).isLt
  have h3 := (m (a + 3)).isLt
  funext x
  by_cases hx : x < a ∨ a + 4 ≤ x
  · exact store32_other hx
  · obtain rfl | rfl | rfl | rfl : x = a ∨ x = a + 1 ∨ x = a + 2 ∨ x = a + 3 := by omega
    all_goals
      apply BitVec.eq_of_toNat_eq
      simp only [store32, storeByte, load32]
      simp
      omega

theorem load32_store32_mod (m : Mem) (a v : Nat) : load32 (store32 m a v) a = v % 2 ^ 32 := by
  simp only [load32, store32, storeByte]
  simp only [show ¬ (a = a + 1) by omega, show ¬ (a = a + 2) by omega, show ¬ (a = a + 3) by omega,
    show ¬ (a + 1 = a + 2) by omega, show ¬ (a + 1 = a + 3) by omega,
    show ¬ (a + 2 = a + 3) by omega, ite_true, ite_false, BitVec.toNat_ofNat]
  omega

theorem load32_store32 {m : Mem} {a v : Nat} (h : v < 2 ^ 32) : load32 (store32 m a v) a = v := by
  rw [load32_store32_mod, Nat.mod_eq_of_lt h]

theorem load32_store32_ne {m : Mem} {a b v : Nat} (h : b + 4 ≤ a ∨ a + 4 ≤ b) :
    load32 (store32 m a v) b = load32 m b :=
  load32_congr fun _ h1 h2 => store32_other (by omega)

/-- `m'` differs from `m` only at addresses in `W`. -/
def SameOff (W : Nat → Prop) (m m' : Mem) : Prop := ∀ x, ¬ W x → m' x = m x

theorem SameOff.refl (W : Nat → Prop) (m : Mem) : SameOff W m m := fun _ _ => rfl

theorem SameOff.trans {W : Nat → Prop} {m m' m'' : Mem} (h : SameOff W m m')
    (h' : SameOff W m' m'') : SameOff W m m'' := fun x hx => (h' x hx).trans (h x hx)

theorem SameOff.mono {W W' : Nat → Prop} {m m' : Mem} (h : SameOff W m m')
    (hW : ∀ x, W x → W' x) : SameOff W' m m' := fun x hx => h x fun hw => hx (hW x hw)

theorem SameOff.load32 {W : Nat → Prop} {m m' : Mem} (h : SameOff W m m') {a : Nat}
    (ha : ∀ x, a ≤ x → x < a + 4 → ¬ W x) : load32 m' a = load32 m a :=
  load32_congr fun x h1 h2 => h x (ha x h1 h2)

theorem SameOff.store32 {W : Nat → Prop} {m m' : Mem} (h : SameOff W m m') {a v : Nat}
    (ha : ∀ x, a ≤ x → x < a + 4 → W x) : SameOff W m (store32 m' a v) := by
  intro x hx
  rw [store32_other, h x hx]
  by_contra hc
  exact hx (ha x (by omega) (by omega))

/-! ## Known words

A memory of which some words are known, as a list of addresses and values: a store
makes one word known and those that it overlaps unknown. -/

/-- `m` has the words `l`. -/
def Words (m : Mem) (l : List (Nat × Nat)) : Prop := ∀ e ∈ l, load32 m e.1 = e.2

/-- The known words after a store. -/
def putWord (l : List (Nat × Nat)) (a v : Nat) : List (Nat × Nat) :=
  (a, v) :: l.filter fun e => decide (e.1 + 4 ≤ a ∨ a + 4 ≤ e.1)

theorem Words.nil (m : Mem) : Words m [] := fun _ h => by cases h

theorem Words.mono {m : Mem} {l l' : List (Nat × Nat)} (h : Words m l) (hl : ∀ e ∈ l', e ∈ l) :
    Words m l' := fun e he => h e (hl e he)

theorem Words.get {m : Mem} {l : List (Nat × Nat)} (h : Words m l) {a v : Nat} (ha : (a, v) ∈ l) :
    load32 m a = v := h (a, v) ha

theorem Words.store {m : Mem} {l : List (Nat × Nat)} (h : Words m l) (a : Nat) {v : Nat}
    (hv : v < 2 ^ 32) : Words (store32 m a v) (putWord l a v) := by
  intro e he
  rcases List.mem_cons.mp he with rfl | he
  · exact load32_store32 hv
  · obtain ⟨he, hap⟩ := List.mem_filter.mp he
    rw [load32_store32_ne (of_decide_eq_true hap), h e he]

end Kfs.Lib
