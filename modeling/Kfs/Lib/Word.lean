import Mathlib.Data.Nat.Bitwise

/-!
# Masks on machine words

Words are natural numbers below `2 ^ 32`. C code rounds with `&` and packs a
page address and its flag bits with `|`; the lemmas here turn both into
arithmetic that `omega` understands. `add32` and `sub32` are the wrapping
operations of `uint32_t`.
-/

namespace Kfs.Lib

/-- `a + b` on `uint32_t`. -/
def add32 (a b : Nat) : Nat := (a + b) % 2 ^ 32

/-- `a - b` on `uint32_t`. -/
def sub32 (a b : Nat) : Nat := (a + (2 ^ 32 - b)) % 2 ^ 32

theorem add32_eq {a b : Nat} (h : a + b < 2 ^ 32) : add32 a b = a + b := Nat.mod_eq_of_lt h

theorem add32_lt (a b : Nat) : add32 a b < 2 ^ 32 := Nat.mod_lt _ (by omega)

theorem sub32_eq {a b : Nat} (h : b ≤ a) (ha : a < 2 ^ 32) : sub32 a b = a - b := by
  unfold sub32
  omega

theorem and_high (x n k : Nat) (h : k ≤ n) :
    x &&& (2 ^ n - 2 ^ k) = x % 2 ^ n / 2 ^ k * 2 ^ k := by
  have hpow : 2 ^ n = 2 ^ k * 2 ^ (n - k) := by rw [← Nat.pow_add]; congr 1; omega
  have hmask : 2 ^ n - 2 ^ k = (2 ^ (n - k) - 1) * 2 ^ k := by
    rw [hpow, Nat.sub_mul, Nat.mul_comm (2 ^ k), Nat.one_mul]
  have hpos : 0 < 2 ^ k := Nat.two_pow_pos k
  have hdiv : (x &&& (2 ^ n - 2 ^ k)) / 2 ^ k = x % 2 ^ n / 2 ^ k := by
    rw [Nat.and_div_two_pow, hmask, Nat.mul_div_cancel _ hpos, Nat.and_two_pow_sub_one_eq_mod,
      hpow, Nat.mod_mul_right_div_self]
  have hmod : (x &&& (2 ^ n - 2 ^ k)) % 2 ^ k = 0 := by
    rw [Nat.and_mod_two_pow, hmask, Nat.mul_mod_left, Nat.and_zero]
  rw [← hdiv]
  exact (Nat.div_mul_cancel (Nat.dvd_of_mod_eq_zero hmod)).symm

theorem and_mask8 (x : Nat) (h : x < 2 ^ 32) : x &&& 0xFFFFFFF8 = x - x % 8 := by
  have := and_high x 32 3 (by omega)
  simp only [Nat.reducePow, Nat.reduceSub] at this
  omega

theorem and_maskPage (x : Nat) (h : x < 2 ^ 32) : x &&& 0xFFFFF000 = x - x % 4096 := by
  have := and_high x 32 12 (by omega)
  simp only [Nat.reducePow, Nat.reduceSub] at this
  omega

theorem and_seven (x : Nat) : x &&& 7 = x % 8 := Nat.and_two_pow_sub_one_eq_mod x 3

theorem and_ten (x : Nat) : x &&& 0x3FF = x % 1024 := Nat.and_two_pow_sub_one_eq_mod x 10

theorem and_offset (x : Nat) : x &&& 0xFFF = x % 4096 := Nat.and_two_pow_sub_one_eq_mod x 12

/-- Flag bits or-ed into a page-aligned address are added to it. -/
theorem or_flags (t f : Nat) (ht : t % 4096 = 0) (hf : f < 4096) : t ||| f = t + f := by
  obtain ⟨k, rfl⟩ : ∃ k, t = 4096 * k := ⟨t / 4096, by omega⟩
  exact (Nat.two_pow_add_eq_or_of_lt (i := 12) hf k).symm

/-! ## Flag bits -/

/-- All bits of `f` are set in `e`. -/
def HasFlags (e f : Nat) : Prop := e &&& f = f

instance (e f : Nat) : Decidable (HasFlags e f) := inferInstanceAs (Decidable (_ = _))

theorem hasFlags_iff {e f : Nat} : HasFlags e f ↔ ∀ k, f.testBit k = true → e.testBit k = true := by
  constructor
  · intro h k hk
    have := congrArg (Nat.testBit · k) h
    simp only [Nat.testBit_and, hk, Bool.and_true] at this
    exact this
  · intro h
    apply Nat.eq_of_testBit_eq
    intro k
    rw [Nat.testBit_and]
    cases hk : f.testBit k with
    | false => exact Bool.and_false _
    | true => rw [h k hk, Bool.and_true]

theorem hasFlags_and {a b f : Nat} : HasFlags (a &&& b) f ↔ HasFlags a f ∧ HasFlags b f := by
  simp only [hasFlags_iff, Nat.testBit_and, Bool.and_eq_true]
  exact ⟨fun h => ⟨fun k hk => (h k hk).1, fun k hk => (h k hk).2⟩,
    fun h k hk => ⟨h.1 k hk, h.2 k hk⟩⟩

theorem HasFlags.or_left {a f : Nat} (h : HasFlags a f) (b : Nat) : HasFlags (a ||| b) f := by
  rw [hasFlags_iff] at h ⊢
  intro k hk
  rw [Nat.testBit_or, h k hk, Bool.true_or]

theorem HasFlags.or_right {b f : Nat} (h : HasFlags b f) (a : Nat) : HasFlags (a ||| b) f := by
  rw [Nat.or_comm]
  exact h.or_left a

/-- Flags asked for together are asked for one by one. -/
theorem hasFlags_or {e f g : Nat} : HasFlags e (f ||| g) ↔ HasFlags e f ∧ HasFlags e g := by
  simp only [hasFlags_iff, Nat.testBit_or, Bool.or_eq_true]
  exact ⟨fun h => ⟨fun k hk => h k (.inl hk), fun k hk => h k (.inr hk)⟩,
    fun h k hk => hk.elim (h.1 k) (h.2 k)⟩

end Kfs.Lib
