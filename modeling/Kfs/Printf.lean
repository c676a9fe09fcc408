import Kfs.ScreenInv
import Kfs.Lib.CString
import Mathlib.Data.Nat.Digits.Lemmas

/-!
# Formatted printing (`kprintf.c`)

`kprintf` walks over its format and prints character by character. Each call prints
one text, `formatText`, that depends on the format, the arguments and the memory
they point into, and not on the screen (`kprintfv_puts`).

The format and the strings are read from memory, up to a NUL. A `%` right before
the NUL makes the walk step over it and read on; so does the model.
-/

namespace Kfs

open Kfs.Lib

@[simp] def percent : BitVec 8 := 37
@[simp] def digitZero : BitVec 8 := 48
@[simp] def minusSign : BitVec 8 := 45
@[simp] def digitA : BitVec 8 := 65

/-- The number of bytes that have an address. -/
def addressSpace : Nat := 2 ^ 32

/-! ## Numbers -/

/-- `buffer[i++] = b` of a `char buffer[12]`, the latest entry first. -/
def pushChar (buffer : List (BitVec 8)) (b : BitVec 8) : C (List (BitVec 8)) := do
  if buffer.length < 12 then return b :: buffer
  throw (.outOfBounds buffer.length)

/-- One round of `while (value > 0)`. -/
def decimalRound (x : Nat × List (BitVec 8)) : C ((Nat × List (BitVec 8)) ⊕ List (BitVec 8)) := do
  let (value, buffer) := x
  if value > 0 then
    let buffer ← pushChar buffer (digitZero + .ofNat 8 (value % 10))
    return .inl (value / 10, buffer)
  return .inr buffer

def printDecimal (value : BitVec 32) : C Unit := do
  if value = 0 then
    screenPutchar digitZero
  else
    let isNegative := value.toInt < 0
    -- `INT_MIN` is its own negation: the loop ends at once
    let value := if isNegative then -value else value
    let buffer ← iterate .outOfFuel decimalRound 12 (value.toInt.toNat, [])
    let buffer ← if isNegative then pushChar buffer minusSign else pure buffer
    -- `while (i--)` prints from the last entry to the first
    screenPutstring buffer

def hexDigit (nibble : BitVec 32) : BitVec 8 :=
  if nibble.toNat < 10 then digitZero + nibble.setWidth 8 else digitA + nibble.setWidth 8 - 10

def printHex (value : BitVec 32) : C Unit := do
  if value = 0 then
    screenPutstring (bytesOf "0x0")
  else
    screenPutstring (bytesOf "0x")
    forUp (fun k => do
      let i := 7 - k
      screenPutchar (hexDigit (value >>> (i * 4) &&& 0xF))) 0 8

/-! ## The format -/

/-- The arguments a `va_list` still holds. -/
abbrev VaList := Nat → BitVec 32

/-- The rest after one `va_arg`. -/
def VaList.rest (args : VaList) : VaList := fun i => args (i + 1)

/-- `%` followed by `d`. -/
def printDirective (m : Mem) (d : BitVec 8) (args : VaList) : C VaList := do
  if d = 115 then -- s
    screenPutstring (cString m (args 0).toNat addressSpace)
    return args.rest
  else if d = 99 then -- c
    screenPutchar ((args 0).setWidth 8)
    return args.rest
  else if d = 100 then -- d
    printDecimal (args 0)
    return args.rest
  else if d = 120 ∨ d = 112 then -- x, p
    printHex (args 0)
    return args.rest
  else if d = percent then
    screenPutchar percent
    return args
  else
    return args

/-- The walk over the format at `fmt`, at most `n` rounds of it. -/
def kprintfv (m : Mem) : Nat → Nat → VaList → C Unit
  | 0, _, _ => throw .outOfFuel
  | n + 1, fmt, args => do
    if m fmt = 0 then
      return ()
    else if m fmt = percent then
      let args ← printDirective m (m (fmt + 1)) args
      kprintfv m n (fmt + 2) args
    else
      screenPutchar (m fmt)
      kprintfv m n (fmt + 1) args

/-! ## The text of a call -/

def digitsText (n : Nat) : List (BitVec 8) :=
  (Nat.digits 10 n).reverse.map fun d => digitZero + .ofNat 8 d

/-- The number in decimal, but for `INT_MIN` only its sign. -/
def decimalText (value : BitVec 32) : List (BitVec 8) :=
  if value = 0 then [digitZero]
  else if value.toInt < 0 then minusSign :: digitsText (-value).toInt.toNat
  else digitsText value.toInt.toNat

/-- All eight digits, or one for zero. -/
def hexText (value : BitVec 32) : List (BitVec 8) :=
  if value = 0 then bytesOf "0x0"
  else bytesOf "0x" ++ (List.range' 0 8).map fun k => hexDigit (value >>> ((7 - k) * 4) &&& 0xF)

/-- What a directive prints, and the arguments it leaves. -/
def directiveText (m : Mem) (d : BitVec 8) (args : VaList) : List (BitVec 8) × VaList :=
  if d = 115 then (cString m (args 0).toNat addressSpace, args.rest)
  else if d = 99 then ([(args 0).setWidth 8], args.rest)
  else if d = 100 then (decimalText (args 0), args.rest)
  else if d = 120 ∨ d = 112 then (hexText (args 0), args.rest)
  else if d = percent then ([percent], args)
  else ([], args)

def formatText (m : Mem) : Nat → Nat → VaList → List (BitVec 8)
  | 0, _, _ => []
  | n + 1, fmt, args =>
    if m fmt = 0 then []
    else if m fmt = percent then
      (directiveText m (m (fmt + 1)) args).1 ++
        formatText m n (fmt + 2) (directiveText m (m (fmt + 1)) args).2
    else m fmt :: formatText m n (fmt + 1) args

/-! ## A call prints its text -/

theorem screenPutstring_append : ∀ (s t : List (BitVec 8)) (c : Console),
    screenPutstring (s ++ t) c = (screenPutstring s >>= fun _ => screenPutstring t) c
  | [], _, _ => rfl
  | b :: s, t, c => by
    obtain ⟨_, c₁, h₁, -⟩ := screenPutchar_draws b c
    have ih := screenPutstring_append s t c₁
    show (screenPutchar b >>= fun _ => screenPutstring (s ++ t)) c =
      ((screenPutchar b >>= fun _ => screenPutstring s) >>= fun _ => screenPutstring t) c
    rw [bind_of_ok h₁, ih]
    obtain ⟨_, c₂, h₂, -⟩ := screenPutstring_draws s c₁
    rw [bind_of_ok h₂, bind_of_ok ((bind_of_ok h₁).trans h₂)]

theorem screenPutstring_single (b : BitVec 8) (c : Console) :
    screenPutstring [b] c = screenPutchar b c := by
  obtain ⟨_, c₁, h₁, -⟩ := screenPutchar_draws b c
  rw [h₁]
  exact (bind_of_ok h₁).trans rfl

theorem forUp_puts (f : Nat → BitVec 8) : ∀ (n l : Nat) (c : Console),
    forUp (fun i => screenPutchar (f i)) l n c = screenPutstring ((List.range' l n).map f) c
  | 0, _, _ => rfl
  | n + 1, l, c => by
    obtain ⟨_, c₁, h₁, -⟩ := screenPutchar_draws (f l) c
    rw [forUp, bind_of_ok h₁, forUp_puts f n (l + 1) c₁, List.range'_succ, List.map_cons,
      screenPutstring, bind_of_ok h₁]

theorem digitsText_step {n : Nat} (hn : 0 < n) :
    digitsText n = digitsText (n / 10) ++ [digitZero + .ofNat 8 (n % 10)] := by
  unfold digitsText
  rw [Nat.digits_def' (by decide) hn]
  simp

theorem pushChar_apply {buffer : List (BitVec 8)} (h : buffer.length < 12) (b : BitVec 8)
    (c : Console) : pushChar buffer b c = .ok (b :: buffer) c := by
  unfold pushChar
  rw [if_pos h]
  rfl

theorem decimalLoop_apply (c : Console) :
    ∀ {k fuel n : Nat} {buffer : List (BitVec 8)}, n < 10 ^ k →
    buffer.length + k ≤ 12 → k < fuel →
    iterate .outOfFuel decimalRound fuel (n, buffer) c = .ok (digitsText n ++ buffer) c
  | _, 0, _, _, _, _, hf => absurd hf (Nat.not_lt_zero _)
  | k, fuel + 1, n, buffer, hn, hb, hf => by
    by_cases h0 : 0 < n
    · cases k with
      | zero => omega
      | succ k =>
        have hround : decimalRound (n, buffer) c =
            .ok (.inl (n / 10, (digitZero + .ofNat 8 (n % 10)) :: buffer)) c := by
          unfold decimalRound
          dsimp only
          rw [if_pos h0, bind_of_ok (pushChar_apply (by omega) _ c)]
          rfl
        have hsmall : n / 10 < 10 ^ k := by
          rw [Nat.pow_succ] at hn
          omega
        rw [iterate_next hround, decimalLoop_apply c hsmall (by simp only [List.length_cons]; omega)
          (by omega), digitsText_step h0]
        simp
    · obtain rfl : n = 0 := by omega
      exact iterate_done rfl

theorem digitsText_length {n : Nat} (hn : n < 10 ^ 10) : (digitsText n).length ≤ 10 := by
  unfold digitsText
  rw [List.length_map, List.length_reverse]
  exact (Nat.digits_length_le_iff (by decide) n).mpr hn

theorem printDecimal_puts (value : BitVec 32) (c : Console) :
    printDecimal value c = screenPutstring (decimalText value) c := by
  unfold printDecimal decimalText
  by_cases h0 : value = 0
  · rw [if_pos h0, if_pos h0, screenPutstring_single]
  have hloop : ∀ v : BitVec 32, iterate .outOfFuel decimalRound 12 (v.toInt.toNat, []) c =
      .ok (digitsText v.toInt.toNat) c ∧ (digitsText v.toInt.toNat).length ≤ 10 := by
    intro v
    have hsmall : v.toInt.toNat < 10 ^ 10 := by
      have := v.toInt_lt
      omega
    have hrun : iterate .outOfFuel decimalRound 12 (v.toInt.toNat, []) c =
        .ok (digitsText v.toInt.toNat ++ []) c :=
      decimalLoop_apply c hsmall (Nat.le_of_ble_eq_true rfl) (by decide)
    rw [List.append_nil] at hrun
    exact ⟨hrun, digitsText_length hsmall⟩
  rw [if_neg h0, if_neg h0]
  dsimp only
  by_cases hneg : value.toInt < 0
  · obtain ⟨hrun, hlen⟩ := hloop (-value)
    rw [if_pos hneg, if_pos hneg, bind_of_ok hrun, if_pos hneg,
      bind_of_ok (pushChar_apply (by omega) _ c)]
  · obtain ⟨hrun, -⟩ := hloop value
    rw [if_neg hneg, if_neg hneg, bind_of_ok hrun, if_neg hneg]
    rfl

theorem printHex_puts (value : BitVec 32) (c : Console) :
    printHex value c = screenPutstring (hexText value) c := by
  unfold printHex hexText
  by_cases h0 : value = 0
  · rw [if_pos h0, if_pos h0]
  rw [if_neg h0, if_neg h0, screenPutstring_append]
  obtain ⟨_, c₁, h₁, -⟩ := screenPutstring_draws (bytesOf "0x") c
  rw [bind_of_ok h₁, bind_of_ok h₁]
  exact forUp_puts _ 8 0 c₁

theorem printDirective_puts (m : Mem) (d : BitVec 8) (args : VaList) (c : Console) :
    printDirective m d args c = (do
      screenPutstring (directiveText m d args).1
      return (directiveText m d args).2 : C VaList) c := by
  unfold printDirective directiveText
  split_ifs
  · rfl
  · obtain ⟨_, c₁, h₁, -⟩ := screenPutchar_draws ((args 0).setWidth 8) c
    rw [bind_of_ok h₁, bind_of_ok ((screenPutstring_single _ c).trans h₁)]
  · obtain ⟨_, c₁, h₁, -⟩ := screenPutstring_draws (decimalText (args 0)) c
    rw [bind_of_ok ((printDecimal_puts _ c).trans h₁), bind_of_ok h₁]
  · obtain ⟨_, c₁, h₁, -⟩ := screenPutstring_draws (hexText (args 0)) c
    rw [bind_of_ok ((printHex_puts _ c).trans h₁), bind_of_ok h₁]
  · obtain ⟨_, c₁, h₁, -⟩ := screenPutchar_draws percent c
    rw [bind_of_ok h₁, bind_of_ok ((screenPutstring_single _ c).trans h₁)]
  · rfl

/-- **A call prints its text**: it ends where printing the text ends, whether it returns
or is still reading after `n` rounds. -/
theorem kprintfv_puts (m : Mem) : ∀ (n fmt : Nat) (args : VaList) (c : Console),
    ∃ c', screenPutstring (formatText m n fmt args) c = .ok () c' ∧
      (kprintfv m n fmt args c = .ok () c' ∨ kprintfv m n fmt args c = .error .outOfFuel c')
  | 0, _, _, c => ⟨c, rfl, .inr rfl⟩
  | n + 1, fmt, args, c => by
    unfold kprintfv formatText
    by_cases h0 : m fmt = 0
    · rw [if_pos h0, if_pos h0]
      exact ⟨c, rfl, .inl rfl⟩
    rw [if_neg h0, if_neg h0]
    by_cases hp : m fmt = percent
    · obtain ⟨_, c₁, h₁, -⟩ := screenPutstring_draws (directiveText m (m (fmt + 1)) args).1 c
      obtain ⟨c', hr, hk⟩ := kprintfv_puts m n (fmt + 2) (directiveText m (m (fmt + 1)) args).2 c₁
      have hdir : printDirective m (m (fmt + 1)) args c =
          .ok (directiveText m (m (fmt + 1)) args).2 c₁ :=
        (printDirective_puts _ _ _ c).trans ((bind_of_ok h₁).trans rfl)
      rw [if_pos hp, if_pos hp, bind_of_ok hdir, screenPutstring_append, bind_of_ok h₁]
      exact ⟨c', hr, hk⟩
    · obtain ⟨_, c₁, h₁, -⟩ := screenPutchar_draws (m fmt) c
      obtain ⟨c', hr, hk⟩ := kprintfv_puts m n (fmt + 1) args c₁
      rw [if_neg hp, if_neg hp, bind_of_ok h₁]
      exact ⟨c', (bind_of_ok h₁).trans hr, hk⟩

end Kfs
