import Kfs.ScreenBounds

/-!
# What `%d` prints

`print_decimal` prints a negative value as a minus sign and the digits of its
negation. The least value of an `int` is its own negation: it is still negative, the
loop over its digits ends at once, and the sign is all that is printed. Every other
value is printed as the usual numeral, and no value needs more than 11 of the 12
bytes of the buffer.
-/

namespace Kfs

open Kfs.Lib

/-- `print_decimal` prints the numeral of `value` and never leaves its buffer. -/
structure DecimalPrinted (value : BitVec 32) : Prop where
  text : ∀ c, printDecimal value c = screenPutstring (bytesOf value.toInt.repr) c
  buffer : ∀ c i c', printDecimal value c ≠ .error (.outOfBounds i) c'

/-! ## Numerals -/

theorem digitChar_byte {d : Nat} (hd : d < 10) :
    BitVec.ofNat 8 d.digitChar.toNat = digitZero + .ofNat 8 d := by
  have hall : ∀ d : Fin 10, BitVec.ofNat 8 d.val.digitChar.toNat = digitZero + .ofNat 8 d.val := by
    decide
  exact hall ⟨d, hd⟩

/-- The digits that the loop finds are those of the numeral. -/
theorem bytesOf_repr (n : Nat) (hn : 0 < n) : bytesOf n.repr = digitsText n := by
  unfold bytesOf
  rw [Nat.toList_repr]
  induction n using Nat.strong_induction_on with
  | _ n ih =>
    have hlast := digitChar_byte (Nat.mod_lt n (show 0 < 10 by omega))
    rw [digitsText_step hn]
    rcases Nat.lt_or_ge n 10 with hlt | hge
    · rw [Nat.toDigits_of_lt_base hlt, Nat.div_eq_of_lt hlt, ← hlast, Nat.mod_eq_of_lt hlt]
      rfl
    · rw [Nat.toDigits_of_base_le (by omega) hge, List.map_append,
        ih (n / 10) (by omega) (by omega),
        ← hlast]
      rfl

theorem decimalText_zero : decimalText 0 = bytesOf (0 : BitVec 32).toInt.repr := by decide

theorem bytesOf_neg (n : Nat) : bytesOf ("-" ++ n.repr) = minusSign :: bytesOf n.repr := by
  unfold bytesOf
  rw [String.toList_append, List.map_append]
  rfl

theorem decimalText_eq {value : BitVec 32} (h : value ≠ 0x80000000#32) :
    decimalText value = bytesOf value.toInt.repr := by
  by_cases h0 : value = 0
  · rw [h0]
    exact decimalText_zero
  have hne : value.toInt ≠ 0 := fun he => h0 (BitVec.toInt_inj.mp (by rw [he]; rfl))
  unfold decimalText
  rw [if_neg h0, Int.repr_eq_if]
  by_cases hneg : value.toInt < 0
  · rw [if_pos hneg, if_neg (by omega), bytesOf_neg, bytesOf_repr _ (by omega),
      BitVec.toInt_neg_of_ne_intMin h]
  · rw [if_neg hneg, if_pos (by omega), bytesOf_repr _ (by omega)]

/-- Of the least value only the sign. -/
theorem decimalText_min : decimalText 0x80000000#32 = [minusSign] := by decide

/-! ## Printing -/

/-- The buffer is large enough for every value. -/
theorem printDecimal_buffer (value : BitVec 32) (c : Console) (i : Nat) (c' : Console) :
    printDecimal value c ≠ .error (.outOfBounds i) c' := by
  obtain ⟨_, c₁, hr, -⟩ := screenPutstring_draws (decimalText value) c
  rw [printDecimal_puts, hr]
  intro h
  cases h

/-- On an empty screen the sign leaves the cursor elsewhere than the numeral. -/
theorem printDecimal_min : ¬ ∀ c, printDecimal 0x80000000#32 c =
    screenPutstring (bytesOf (0x80000000#32).toInt.repr) c := by
  intro h
  have hin : (⟨0, 0⟩ : Pos).In := ⟨Nat.zero_le _, by decide⟩
  obtain ⟨c₁, h₁, hm₁⟩ := screenPutstring_prints hin [minusSign] .blank rfl
  obtain ⟨c₂, h₂, hm₂⟩ :=
    screenPutstring_prints hin (bytesOf (0x80000000#32).toInt.repr) .blank rfl
  have hblank := h .blank
  rw [printDecimal_puts, decimalText_min, h₁, h₂] at hblank
  injection hblank with _ heq
  have hpos : (⟨0, 0⟩ : Pos).walk [minusSign] =
      (⟨0, 0⟩ : Pos).walk (bytesOf (0x80000000#32).toInt.repr) := by
    rw [← hm₁.pos, ← hm₂.pos, heq]
  revert hpos
  decide

/-- **When `%d` prints its argument**: for every 32-bit value but the least one. -/
theorem print_decimal_numeral (value : BitVec 32) :
    DecimalPrinted value ↔ value ≠ 0x80000000#32 := by
  constructor
  · rintro h rfl
    exact printDecimal_min h.text
  · intro h
    refine ⟨fun c => ?_, printDecimal_buffer value⟩
    rw [printDecimal_puts, decimalText_eq h]

/-- The least value is printed as a minus sign. -/
theorem print_decimal_sign : (∀ c, printDecimal 0x80000000#32 c = screenPutstring (bytesOf "-") c) ∧
    ¬ DecimalPrinted 0x80000000#32 := by
  refine ⟨fun c => ?_, fun h => printDecimal_min h.text⟩
  rw [printDecimal_puts, decimalText_min]
  rfl

end Kfs
