import Kfs.ShellRun
import Kfs.Screen
import Kfs.Lib.Numeral
import Mathlib.Data.List.Forall2

/-!
# Numbers typed at the shell (`shell.c`)

`parse_hex_or_dec` folds the digits at the start of an argument in 32-bit arithmetic, up
to the first character that is no digit (`parseHexOrDec_leading`). So it returns the
number that a literal denotes modulo `2 ^ 32` (`parseHexOrDec_denotes`). `write` looks
for values that do not fit an `int` in that result, where the bits above the lowest 32
are gone already.
-/

namespace Kfs

open Kfs.Lib

/-! ## `parse_hex_or_dec` -/

def decValue (c : BitVec 8) : Option (BitVec 32) :=
  if 48 ≤ c.toNat ∧ c.toNat ≤ 57 then some (.ofNat 32 (c.toNat - 48)) else none

def hexValue (c : BitVec 8) : Option (BitVec 32) :=
  if 48 ≤ c.toNat ∧ c.toNat ≤ 57 then some (.ofNat 32 (c.toNat - 48))
  else if 97 ≤ c.toNat ∧ c.toNat ≤ 102 then some (.ofNat 32 (10 + (c.toNat - 97)))
  else if 65 ≤ c.toNat ∧ c.toNat ≤ 70 then some (.ofNat 32 (10 + (c.toNat - 65)))
  else none

/-- The loops of `parse_hex_or_dec`: up to the first character that is no digit. -/
def foldDigits (digit : BitVec 8 → Option (BitVec 32)) (push : BitVec 32 → BitVec 32 → BitVec 32) :
    BitVec 32 → List (BitVec 8) → BitVec 32
  | val, [] => val
  | val, c :: s =>
    match digit c with
    | some n => foldDigits digit push (push val n) s
    | none => val

/-- `s` is the string before its NUL. -/
def parseHexOrDec (s : List (BitVec 8)) : BitVec 32 :=
  if s[0]? = some 48 ∧ (s[1]? = some 120 ∨ s[1]? = some 88) then
    foldDigits hexValue (fun val n => val <<< 4 ||| n) 0 (s.drop 2)
  else
    foldDigits decValue (fun val n => val * 10 + n) 0 s

/-! ## Literals -/

def decChar (d : Nat) : BitVec 8 := .ofNat 8 (48 + d)

/-- The digit `d` in upper or lower case. -/
def hexChar (d : Nat × Bool) : BitVec 8 :=
  .ofNat 8 (if d.1 < 10 then 48 + d.1 else if d.2 then 55 + d.1 else 87 + d.1)

/-- **The number a literal denotes**: its digits, the first one the most significant, in base
10, or in base 16 after `0x` or `0X`. -/
inductive Denotes : List (BitVec 8) → Nat → Prop where
  | dec {ds : List Nat} : ds ≠ [] → (∀ d ∈ ds, d < 10) →
      Denotes (ds.map decChar) (Nat.ofDigits 10 ds.reverse)
  | hex {x : BitVec 8} {ds : List (Nat × Bool)} : x = 120 ∨ x = 88 → ds ≠ [] →
      (∀ d ∈ ds, d.1 < 16) →
      Denotes (48 :: x :: ds.map hexChar) (Nat.ofDigits 16 (ds.map Prod.fst).reverse)

/-! ## The digits a string starts with -/

/-- `c` is the digit `d` of base `b`, in upper or lower case. -/
def IsDigit (b : Nat) (c : BitVec 8) (d : Nat) : Prop := d < b ∧ ∃ upper, c = hexChar (d, upper)

/-- `n` is the value in base `b` of the longest prefix of digits of `s`. -/
def NumeralAt (b : Nat) (s : List (BitVec 8)) (n : Nat) : Prop :=
  ∃ u ds, LongestPrefix (fun c => ∃ d, IsDigit b c d) s u ∧ List.Forall₂ (IsDigit b) u ds ∧
    Nat.ofDigits b ds.reverse = n

/-- **The number a string starts with**: its digits in base 10, or in base 16 after a leading
`0x` or `0X`. -/
inductive LeadingNumber : List (BitVec 8) → Nat → Prop where
  | dec {s : List (BitVec 8)} {n : Nat} : (∀ x t, s = 48 :: x :: t → x ≠ 120 ∧ x ≠ 88) →
      NumeralAt 10 s n → LeadingNumber s n
  | hex {x : BitVec 8} {s : List (BitVec 8)} {n : Nat} : x = 120 ∨ x = 88 → NumeralAt 16 s n →
      LeadingNumber (48 :: x :: s) n

/-- A loop over the digits of base `b`. -/
structure DigitReader (b : Nat) (digit : BitVec 8 → Option (BitVec 32))
    (push : BitVec 32 → BitVec 32 → BitVec 32) : Prop where
  some : ∀ {c d}, IsDigit b c d → digit c = some (.ofNat 32 d)
  none : ∀ {c}, (¬ ∃ d, IsDigit b c d) → digit c = none
  push : ∀ val {d}, d < b → (push val (.ofNat 32 d)).toNat = (val.toNat * b + d) % 2 ^ 32

/-- **Such a loop** reads the longest prefix of digits, modulo `2 ^ 32`. -/
theorem DigitReader.fold {b : Nat} {digit : BitVec 8 → Option (BitVec 32)}
    {push : BitVec 32 → BitVec 32 → BitVec 32} (h : DigitReader b digit push) :
    ∀ {s u : List (BitVec 8)} {ds : List Nat} (val : BitVec 32),
      LongestPrefix (fun c => ∃ d, IsDigit b c d) s u → List.Forall₂ (IsDigit b) u ds →
      (foldDigits digit push val s).toNat =
        (val.toNat * b ^ ds.length + Nat.ofDigits b ds.reverse) % 2 ^ 32
  | [], u, ds, val, hu, hds => by
    obtain rfl := List.prefix_nil.mp hu.pre
    cases hds
    have hlt := val.isLt
    simp [foldDigits, Nat.mod_eq_of_lt hlt]
  | c :: s, u, ds, val, hu, hds => by
    by_cases hc : ∃ d, IsDigit b c d
    · obtain ⟨v, hv⟩ := LongestPrefix.exists (fun c => ∃ d, IsDigit b c d) s
      obtain rfl := hu.unique (hv.cons hc)
      obtain ⟨d, es, hd, hes, rfl⟩ := List.forall₂_cons_left_iff.mp hds
      have ih := DigitReader.fold h (push val (.ofNat 32 d)) hv hes
      rw [foldDigits, h.some hd]
      dsimp only
      rw [ih, h.push val hd.1, List.reverse_cons, Nat.ofDigits_append, Nat.ofDigits_singleton,
        List.length_reverse, List.length_cons]
      have hmod : ∀ x p q : Nat, (x % 2 ^ 32 * p + q) % 2 ^ 32 = (x * p + q) % 2 ^ 32 := by
        intro x p q
        rw [Nat.add_mod, Nat.mod_mul_mod, ← Nat.add_mod]
      rw [hmod]
      congr 1
      ring
    · obtain rfl := hu.unique (.stop hc)
      cases hds
      have hlt := val.isLt
      rw [foldDigits, h.none hc]
      simp [Nat.mod_eq_of_lt hlt]

theorem DigitReader.reads {b n : Nat} {digit : BitVec 8 → Option (BitVec 32)}
    {push : BitVec 32 → BitVec 32 → BitVec 32} (h : DigitReader b digit push) {s : List (BitVec 8)}
    (hn : NumeralAt b s n) : (foldDigits digit push 0 s).toNat = n % 2 ^ 32 := by
  obtain ⟨u, ds, hu, hds, rfl⟩ := hn
  rw [h.fold 0 hu hds]
  simp

theorem decValue_char {d : Nat} (hd : d < 10) : decValue (decChar d) = some (.ofNat 32 d) := by
  have hall : ∀ d : Fin 10, decValue (decChar d.val) = some (.ofNat 32 d.val) := by decide
  exact hall ⟨d, hd⟩

theorem hexValue_char (d : Nat × Bool) (hd : d.1 < 16) :
    hexValue (hexChar d) = some (.ofNat 32 d.1) := by
  have hall :
      ∀ (d : Fin 16) (u : Bool), hexValue (hexChar (d.val, u)) = some (.ofNat 32 d.val) := by
    decide
  exact hall ⟨d.1, hd⟩ d.2

theorem decPush_toNat (val : BitVec 32) (n : Nat) :
    (val * 10 + .ofNat 32 n).toNat = (val.toNat * 10 + n) % 2 ^ 32 := by
  rw [BitVec.toNat_add, BitVec.toNat_mul, BitVec.toNat_ofNat]
  exact ((Nat.mod_modEq _ _).add (Nat.mod_modEq _ _))

theorem hexPush_toNat (val : BitVec 32) {n : Nat} (hn : n < 16) :
    (val <<< 4 ||| .ofNat 32 n).toNat = (val.toNat * 16 + n) % 2 ^ 32 := by
  have hsmall : n % 2 ^ 32 = n := Nat.mod_eq_of_lt (by omega)
  -- the four bits that the shift clears take the digit
  have hshift : val.toNat <<< 4 % 2 ^ 32 = (val.toNat % 2 ^ 28) <<< 4 := by
    rw [Nat.shiftLeft_eq, Nat.shiftLeft_eq]
    omega
  rw [BitVec.toNat_or, BitVec.toNat_shiftLeft, BitVec.toNat_ofNat, hsmall, hshift,
    ← Nat.shiftLeft_add_eq_or_of_lt (show n < 2 ^ 4 from hn), Nat.shiftLeft_eq]
  omega

theorem decValue_some {c : BitVec 8} (h : 48 ≤ c.toNat ∧ c.toNat ≤ 57) :
    IsDigit 10 c (c.toNat - 48) := by
  refine ⟨by omega, true, BitVec.eq_of_toNat_eq ?_⟩
  simp only [hexChar, BitVec.toNat_ofNat]
  split <;> omega

theorem decReader : DigitReader 10 decValue (fun val n => val * 10 + n) where
  some := by
    rintro c d ⟨hd, upper, rfl⟩
    rw [← decValue_char hd, decChar, hexChar, if_pos hd]
  none hc := if_neg fun h => hc ⟨_, decValue_some h⟩
  push val d _ := decPush_toNat val d

theorem hexReader : DigitReader 16 hexValue (fun val n => val <<< 4 ||| n) where
  some := by
    rintro c d ⟨hd, upper, rfl⟩
    exact hexValue_char (d, upper) hd
  none := by
    intro c hc
    have hdec : ¬ (48 ≤ c.toNat ∧ c.toNat ≤ 57) := fun h => by
      obtain ⟨hd, upper, he⟩ := decValue_some h
      exact hc ⟨_, by omega, upper, he⟩
    have hlow : ¬ (97 ≤ c.toNat ∧ c.toNat ≤ 102) := fun h => by
      refine hc ⟨c.toNat - 87, by omega, false, BitVec.eq_of_toNat_eq ?_⟩
      simp only [hexChar, BitVec.toNat_ofNat, Bool.false_eq_true, ↓reduceIte]
      split <;> omega
    have hup : ¬ (65 ≤ c.toNat ∧ c.toNat ≤ 70) := fun h => by
      refine hc ⟨c.toNat - 55, by omega, true, BitVec.eq_of_toNat_eq ?_⟩
      simp only [hexChar, BitVec.toNat_ofNat, ↓reduceIte]
      split <;> omega
    unfold hexValue
    rw [if_neg hdec, if_neg hlow, if_neg hup]
  push val d hd := hexPush_toNat val hd

/-- **What `parse_hex_or_dec` returns**: the number the string starts with. -/
theorem parseHexOrDec_leading {s : List (BitVec 8)} {n : Nat} (h : LeadingNumber s n) :
    (parseHexOrDec s).toNat = n % 2 ^ 32 := by
  unfold parseHexOrDec
  cases h with
  | dec hplain hn =>
    rw [if_neg ?_]
    · exact decReader.reads hn
    rintro ⟨h0, h1⟩
    match s with
    | [] => simp at h0
    | [_] => simp at h1
    | c :: x :: t =>
      simp only [List.getElem?_cons_zero, List.getElem?_cons_succ, Option.some.injEq] at h0 h1
      obtain ⟨hx, hX⟩ := hplain x t (by rw [h0])
      exact h1.elim hx hX
  | hex hx hn =>
    rw [if_pos ⟨rfl, by simpa using hx⟩]
    exact hexReader.reads hn

theorem Denotes.leading {text : List (BitVec 8)} {n : Nat} (h : Denotes text n) :
    LeadingNumber text n := by
  cases h with
  | @dec ds hne hds =>
    have hdigit : ∀ d ∈ ds, IsDigit 10 (decChar d) d :=
      fun d hd => ⟨hds d hd, true, by rw [decChar, hexChar, if_pos (hds d hd)]⟩
    refine .dec (fun x t he => ?_) ⟨_, ds, .self ?_, ?_, rfl⟩
    · have hx : x ∈ ds.map decChar := by
        rw [he]
        simp
      obtain ⟨d, hd, rfl⟩ := List.mem_map.mp hx
      have hall : ∀ d : Fin 10, decChar d.val ≠ 120 ∧ decChar d.val ≠ 88 := by decide
      exact hall ⟨d, hds d hd⟩
    · intro c hc
      obtain ⟨d, hd, rfl⟩ := List.mem_map.mp hc
      exact ⟨d, hdigit d hd⟩
    · rw [List.forall₂_map_left_iff, List.forall₂_same]
      exact hdigit
  | @hex x ds hx hne hds =>
    refine .hex hx ⟨_, ds.map Prod.fst, .self ?_, ?_, rfl⟩
    · intro c hc
      obtain ⟨d, hd, rfl⟩ := List.mem_map.mp hc
      exact ⟨d.1, hds d hd, d.2, rfl⟩
    · rw [List.forall₂_map_left_iff, List.forall₂_map_right_iff, List.forall₂_same]
      exact fun d hd => ⟨hds d hd, d.2, rfl⟩

theorem parseHexOrDec_denotes {text : List (BitVec 8)} {n : Nat} (h : Denotes text n) :
    (parseHexOrDec text).toNat = n % 2 ^ 32 := parseHexOrDec_leading h.leading

/-! ## `write` -/

section Write

variable {M : Type} [Bus M]

/-- `cmd_write` with its `argv`. -/
def cmdWriteArgs (argv : List (List (BitVec 8))) : K M Bool :=
  match argv with
  | _ :: addr :: value :: _ => cmdWrite (parseHexOrDec addr).toNat (parseHexOrDec value).toNat
  | _ => return false

end Write

/-- `write` may store at `a`: the allocator of its region gives a size of at least a word. -/
def Accepts (s : State Flat) (a : Nat) : Prop :=
  0x100000 ≤ a ∧ ∃ type z, allocSize a s = .ok (type, z) s ∧ 4 ≤ z

/-- **What `write` stores** is the number its value argument denotes, and fits an `int`. -/
def WriteExact (s : State Flat) (name addr value : List (BitVec 8)) (n : Nat) : Prop :=
  ∀ s', cmdWriteArgs [name, addr, value] s = .ok true s' →
    n ≤ 0x7FFFFFFF ∧ s' = s.setData (store32 s.mem.data (parseHexOrDec addr).toNat n)

/-- When `write` stores, and what. -/
theorem cmdWrite_stores {s s' : State Flat} {a v : Nat} (ha : a < 2 ^ 32) :
    cmdWrite a v s = .ok true s' ↔
      v ≤ 0x7FFFFFFF ∧ Accepts s a ∧ s' = s.setData (store32 s.mem.data a v) := by
  constructor
  · intro h
    obtain ⟨hv, hs, -⟩ := cmdWrite_ok h ha
    refine ⟨hv, ?_, hs⟩
    unfold cmdWrite at h
    rw [if_neg (by omega)] at h
    dsimp only at h
    split at h
    · cases h
    · rename_i hlow
      obtain ⟨⟨type, z⟩, t, hsize, hrest⟩ := bind_eq_ok.mp h
      obtain ⟨rfl, -⟩ := allocSize_ok hsize ha
      refine ⟨by omega, type, z, hsize, ?_⟩
      dsimp only at hrest
      split at hrest
      · split at hrest
        · cases hrest
        · omega
      · cases hrest
  · rintro ⟨hv, ⟨hlow, type, z, hsize, hz⟩, rfl⟩
    unfold cmdWrite
    rw [if_neg (by omega)]
    dsimp only
    rw [if_neg (by omega), bind_of_ok hsize]
    dsimp only
    rw [if_pos (by omega), if_neg (by omega), bind_of_ok (st_flat ha _ _)]
    rfl

/-- **When `write` stores what was typed**: for every literal, exactly when the number fits an
`int`, or its lowest 32 bits do not either, or nothing is stored at the address. -/
theorem write_exact {s : State Flat} {name addr value : List (BitVec 8)} {n : Nat}
    (h : Denotes value n) : WriteExact s name addr value n ↔
      n ≤ 0x7FFFFFFF ∨ 0x7FFFFFFF < n % 2 ^ 32 ∨ ¬ Accepts s (parseHexOrDec addr).toNat := by
  have hparse := parseHexOrDec_denotes h
  have hstores : ∀ s', cmdWriteArgs [name, addr, value] s = .ok true s' ↔
      n % 2 ^ 32 ≤ 0x7FFFFFFF ∧ Accepts s (parseHexOrDec addr).toNat ∧
        s' = s.setData (store32 s.mem.data (parseHexOrDec addr).toNat (n % 2 ^ 32)) := by
    intro s'
    rw [← hparse]
    exact cmdWrite_stores (parseHexOrDec addr).isLt
  unfold WriteExact
  constructor
  · intro hall
    by_contra hno
    obtain ⟨hbig, hlow, hacc⟩ : 0x7FFFFFFF < n ∧ n % 2 ^ 32 ≤ 0x7FFFFFFF ∧
        Accepts s (parseHexOrDec addr).toNat := by
      refine ⟨by omega, by omega, ?_⟩
      by_contra hacc
      exact hno (.inr (.inr hacc))
    obtain ⟨hle, -⟩ := hall _ ((hstores _).mpr ⟨hlow, hacc, rfl⟩)
    omega
  · rintro hcond s' hr
    obtain ⟨hlow, hacc, hs⟩ := (hstores s').mp hr
    rcases hcond with hle | hhigh | hnot
    · rw [Nat.mod_eq_of_lt (by omega)] at hs
      exact ⟨hle, hs⟩
    · omega
    · exact absurd hacc hnot

theorem denotes_dec {text : List (BitVec 8)} {n : Nat} (ds : List Nat) (hne : ds ≠ [])
    (hds : ∀ d ∈ ds, d < 10) (ht : ds.map decChar = text) (hn : Nat.ofDigits 10 ds.reverse = n) :
    Denotes text n := by
  rw [← ht, ← hn]
  exact .dec hne hds

/-- `write 0x200010 v` after `kmalloc(8)`, for a value whose lowest 32 bits fit an `int`. -/
theorem write_boot {text : List (BitVec 8)} {n : Nat} (h : Denotes text n)
    (hlow : n % 2 ^ 32 ≤ 0x7FFFFFFF) : ∃ s s' : State Flat, ShellStart Image.readme ⟨s, ∅⟩ ∧
      kmalloc 8 s = .ok 0x200010 s' ∧
      cmdWriteArgs [bytesOf "write", bytesOf "0x200010", text] s' =
        .ok true (s'.setData (store32 s'.mem.data 0x200010 (n % 2 ^ 32))) := by
  obtain ⟨s, s', hstart, hk, hrep⟩ := kmalloc_boot (n := 8) (by decide) (by decide)
  have hhold := hrep.list.holds ⟨0x200000, round8 8, false⟩ (by simp)
  have hsize : load32 s'.mem.data (0x200010 - 16) = 8 := hhold.1
  have hw := cmdWrite_any hrep (a := 0x200010) (v := n % 2 ^ 32) (by decide) (by decide) (by decide)
    (hhold.2.2 rfl) (by rw [hsize]; decide) hlow
  refine ⟨s, s', hstart, hk, ?_⟩
  have haddr : (parseHexOrDec (bytesOf "0x200010")).toNat = 0x200010 := by decide
  show cmdWrite (parseHexOrDec (bytesOf "0x200010")).toNat (parseHexOrDec text).toNat s' = _
  rw [haddr, parseHexOrDec_denotes h, hw]

/-- `write 0x200010 42`. -/
theorem write_exact_small : ∃ s s' : State Flat, ShellStart Image.readme ⟨s, ∅⟩ ∧
    kmalloc 8 s = .ok 0x200010 s' ∧
    (∃ t, cmdWriteArgs [bytesOf "write", bytesOf "0x200010", bytesOf "42"] s' = .ok true t) ∧
    WriteExact s' (bytesOf "write") (bytesOf "0x200010") (bytesOf "42") 42 := by
  have hden : Denotes (bytesOf "42") 42 := denotes_dec [4, 2] (by simp) (by simp) rfl rfl
  obtain ⟨s, s', hstart, hk, hw⟩ := write_boot hden (by decide)
  exact ⟨s, s', hstart, hk, ⟨_, hw⟩, (write_exact hden).mpr (.inl (by decide))⟩

/-- `write 0x200010 4294967296` stores 0. -/
theorem write_wraps : Denotes (bytesOf "4294967296") 4294967296 ∧
    ∃ s s' : State Flat, ShellStart Image.readme ⟨s, ∅⟩ ∧ kmalloc 8 s = .ok 0x200010 s' ∧
      cmdWriteArgs [bytesOf "write", bytesOf "0x200010", bytesOf "4294967296"] s' =
        .ok true (s'.setData (store32 s'.mem.data 0x200010 0)) ∧
      ¬ WriteExact s' (bytesOf "write") (bytesOf "0x200010") (bytesOf "4294967296") 4294967296 := by
  have hden : Denotes (bytesOf "4294967296") 4294967296 :=
    denotes_dec [4, 2, 9, 4, 9, 6, 7, 2, 9, 6] (by simp) (by simp) rfl rfl
  obtain ⟨s, s', hstart, hk, hw⟩ := write_boot hden (by decide)
  refine ⟨hden, s, s', hstart, hk, hw, fun h => ?_⟩
  obtain ⟨hle, -⟩ := h _ hw
  omega

end Kfs
