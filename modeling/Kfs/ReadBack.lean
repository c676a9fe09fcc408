import Kfs.Literal
import Kfs.Printf

/-!
# Addresses printed and typed back

`%x` and `%p` print `0x` and eight digits in upper case, or `0x0`. Both are literals of
the printed value (`hexText_denotes`), and `parse_hex_or_dec` reads a literal of
any length in either case, so an address that the shell has shown can be typed at it.
-/

namespace Kfs

open Kfs.Lib

/-! ## Every string starts with one number -/

theorem IsDigit.unique {b : Nat} (hb : b ≤ 16) : Relator.RightUnique (IsDigit b) := by
  rintro c d e ⟨hd, upper, rfl⟩ ⟨he, upper', hc⟩
  have hd' := hexValue_char (d, upper) (show d < 16 by omega)
  have he' := hexValue_char (e, upper') (show e < 16 by omega)
  rw [← hc, hd', Option.some_inj, ← BitVec.toNat_inj, BitVec.toNat_ofNat, BitVec.toNat_ofNat] at he'
  dsimp only at he'
  omega

theorem NumeralAt.unique {b n k : Nat} {s : List (BitVec 8)} (hb : b ≤ 16) (h : NumeralAt b s n)
    (h' : NumeralAt b s k) : n = k := by
  obtain ⟨u, ds, hu, hds, rfl⟩ := h
  obtain ⟨v, es, hv, hes, rfl⟩ := h'
  obtain rfl := hu.unique hv
  rw [(IsDigit.unique hb).forall₂ hds hes]

theorem digits_exist {b : Nat} : ∀ {u : List (BitVec 8)}, (∀ c ∈ u, ∃ d, IsDigit b c d) →
    ∃ ds, List.Forall₂ (IsDigit b) u ds
  | [], _ => ⟨[], .nil⟩
  | c :: u, h => by
    obtain ⟨d, hd⟩ := h c List.mem_cons_self
    obtain ⟨ds, hds⟩ := digits_exist fun e he => h e (List.mem_cons_of_mem c he)
    exact ⟨d :: ds, .cons hd hds⟩

theorem NumeralAt.exists (b : Nat) (s : List (BitVec 8)) : ∃ n, NumeralAt b s n := by
  obtain ⟨u, hu⟩ := LongestPrefix.exists (fun c => ∃ d, IsDigit b c d) s
  obtain ⟨ds, hds⟩ := digits_exist hu.all
  exact ⟨_, u, ds, hu, hds, rfl⟩

theorem LeadingNumber.unique {s : List (BitVec 8)} {n k : Nat}
    (h : LeadingNumber s n) (h' : LeadingNumber s k) : n = k := by
  cases h with
  | dec hplain hn =>
    cases h' with
    | dec _ hk => exact hn.unique (by decide) hk
    | hex hx _ =>
      obtain ⟨hne, hne'⟩ := hplain _ _ rfl
      exact absurd hx (not_or.mpr ⟨hne, hne'⟩)
  | hex hx hn =>
    cases h' with
    | dec hplain _ =>
      obtain ⟨hne, hne'⟩ := hplain _ _ rfl
      exact absurd hx (not_or.mpr ⟨hne, hne'⟩)
    | hex _ hk => exact hn.unique (by decide) hk

theorem LeadingNumber.exists (s : List (BitVec 8)) : ∃ n, LeadingNumber s n := by
  by_cases hx : ∃ x t, s = 48 :: x :: t ∧ (x = 120 ∨ x = 88)
  · obtain ⟨x, t, rfl, hx⟩ := hx
    obtain ⟨n, hn⟩ := NumeralAt.exists 16 t
    exact ⟨n, .hex hx hn⟩
  · obtain ⟨n, hn⟩ := NumeralAt.exists 10 s
    refine ⟨n, .dec (fun x t he => ?_) hn⟩
    rw [← not_or]
    exact fun h => hx ⟨x, t, he, h⟩

/-! ## What `print_hex` prints -/

theorem hexDigit_char (nibble : BitVec 32) : hexDigit nibble = hexChar (nibble.toNat, true) := by
  apply BitVec.eq_of_toNat_eq
  unfold hexDigit hexChar
  by_cases hdec : nibble.toNat < 10
  · rw [if_pos hdec, if_pos hdec]
    simp
  · rw [if_neg hdec, if_neg hdec, if_pos rfl]
    simp
    omega

theorem nibble_toNat (v : BitVec 32) (i : Nat) :
    (v >>> (i * 4) &&& 0xF).toNat = v.toNat / 16 ^ i % 16 := by
  rw [BitVec.toNat_and, BitVec.toNat_ushiftRight, Nat.shiftRight_eq_div_pow,
    Nat.mul_comm, Nat.pow_mul]
  exact Nat.and_two_pow_sub_one_eq_mod _ 4

/-- **The text of an address** is a literal of it. -/
theorem hexText_denotes (v : BitVec 32) : Denotes (hexText v) v.toNat := by
  unfold hexText
  by_cases h0 : v = 0
  · rw [if_pos h0, h0]
    exact .hex (.inl rfl) (show [(0, true)] ≠ [] by simp) (by simp)
  rw [if_neg h0]
  let ds : List (Nat × Bool) := (List.range' 0 8).map fun k => (v.toNat / 16 ^ (7 - k) % 16, true)
  have hdigits : (List.range' 0 8).map (fun k => hexDigit (v >>> ((7 - k) * 4) &&& 0xF)) =
      ds.map hexChar := by
    rw [List.map_map]
    refine List.map_congr_left fun k _ => ?_
    rw [hexDigit_char, nibble_toNat]
    rfl
  have hvalue : Nat.ofDigits 16 (ds.map Prod.fst).reverse = v.toNat := by
    have hplaces := ofDigits_places 16 v.toNat 8
    rw [Nat.mod_eq_of_lt (show v.toNat < 16 ^ 8 from v.isLt)] at hplaces
    exact hplaces
  have hlt : ∀ d ∈ ds, d.1 < 16 := by
    intro d hd
    obtain ⟨k, -, rfl⟩ := List.mem_map.mp hd
    exact Nat.mod_lt _ (by decide)
  rw [hdigits, ← hvalue]
  exact .hex (.inl rfl) (by simp [ds]) hlt

/-- **Addresses can be typed back.** Every string starts with exactly one number, and
`parse_hex_or_dec` returns it modulo `2 ^ 32`; for the text that `print_hex` prints for a
value, that value. -/
theorem addresses_typed_back :
    (∀ s, ∃ n, (∀ k, LeadingNumber s k ↔ k = n) ∧ (parseHexOrDec s).toNat = n % 2 ^ 32) ∧
    ∀ v, (∀ c, printHex v c = screenPutstring (hexText v) c) ∧ parseHexOrDec (hexText v) = v := by
  refine ⟨fun s => ?_, fun v => ⟨printHex_puts v, ?_⟩⟩
  · obtain ⟨n, hn⟩ := LeadingNumber.exists s
    refine ⟨n, fun k => ⟨fun hk => hk.unique hn, fun he => he ▸ hn⟩, parseHexOrDec_leading hn⟩
  · apply BitVec.eq_of_toNat_eq
    rw [parseHexOrDec_denotes (hexText_denotes v), Nat.mod_eq_of_lt v.isLt]

example : parseHexOrDec (bytesOf "12ab") = 12 := by decide

end Kfs
