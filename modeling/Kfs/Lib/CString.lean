import Kfs.Lib.Bytes
import Kfs.Lib.Exec
import Mathlib.Data.List.TakeWhile

/-!
# Strings that end in a NUL

A C string is a list of bytes other than NUL (`CStr`); `StringAt m a str` says that
memory holds it at `a`, NUL included. The loops of a string library read and write
through functions that may stop, so that bounds are checked where the code
runs: `scan` moves a pointer over bytes, `strcpy` copies, `strcmp` compares.

`splitWords` cuts a list into its words, the runs between separators.
-/

namespace Kfs.Lib

variable {ε σ : Type}

/-- The bytes of a string before its NUL, in a 32-bit address space. -/
structure CStr where
  bytes : List (BitVec 8)
  noNul : 0 ∉ bytes
  small : bytes.length < 2 ^ 32

namespace CStr

def length (str : CStr) : Nat := str.bytes.length

/-- `str[i]`, the NUL included. -/
def byte (str : CStr) (i : Nat) : BitVec 8 := str.bytes.getD i 0

theorem byte_lt (str : CStr) {i : Nat} (h : i < str.bytes.length) : str.byte i = str.bytes[i] := by
  simp [byte, h]

theorem byte_ne_zero (str : CStr) {i : Nat} (h : i < str.length) : str.byte i ≠ 0 := by
  intro h0
  rw [str.byte_lt h] at h0
  exact str.noNul (h0 ▸ List.getElem_mem h)

theorem byte_length (str : CStr) : str.byte str.length = 0 := by
  simp [byte, length]

theorem byte_drop {str : CStr} {t i : Nat} {u v : List (BitVec 8)} (h : str.bytes.drop t = u ++ v)
    (hi : i < u.length) : str.byte (t + i) = u[i] := by
  unfold byte
  rw [List.getD_eq_getElem?_getD, ← List.getElem?_drop, h, List.getElem?_append_left hi,
    List.getElem?_eq_getElem hi, Option.getD_some]

theorem byte_of_drop {str : CStr} {t : Nat} {u v : List (BitVec 8)} (h : str.bytes.drop t = u ++ v)
    {P : BitVec 8 → Prop} (hu : ∀ x ∈ u, P x) {i : Nat} (h1 : t ≤ i) (h2 : i < t + u.length) :
    P (str.byte i) := by
  have hpos := byte_drop (i := i - t) h (by omega)
  rw [Nat.add_sub_cancel' h1] at hpos
  rw [hpos]
  exact hu _ (List.getElem_mem _)

theorem drop_of_drop {str : CStr} {t : Nat} {u v : List (BitVec 8)}
    (h : str.bytes.drop t = u ++ v) :
    str.bytes.drop (t + u.length) = v := by
  rw [← List.drop_drop, h, List.drop_left]

theorem ext_byte {s t : CStr} (hl : s.length = t.length)
    (hb : ∀ i, i < s.length → s.byte i = t.byte i) :
    s.bytes = t.bytes := by
  apply List.ext_getElem hl
  intro i h1 h2
  rw [← s.byte_lt h1, ← t.byte_lt h2]
  exact hb i h1

end CStr

/-- Memory holds the string at `a`. -/
structure StringAt (m : Mem) (a : Nat) (str : List (BitVec 8)) : Prop where
  bytes : ∀ i, (h : i < str.length) → m (a + i) = str[i]
  nul : m (a + str.length) = 0

theorem stringAt_getD (str : List (BitVec 8)) : StringAt (fun i => str.getD i 0) 0 str where
  bytes i hi := by
    rw [Nat.zero_add, List.getD_eq_getElem _ _ hi]
  nul := by
    rw [Nat.zero_add, List.getD_eq_default _ _ (Nat.le_refl _)]

theorem StringAt.head {m : Mem} {a : Nat} {b : BitVec 8} {str : List (BitVec 8)}
    (h : StringAt m a (b :: str)) : m a = b := h.bytes 0 (Nat.succ_pos _)

theorem StringAt.tail {m : Mem} {a : Nat} {b : BitVec 8} {str : List (BitVec 8)}
    (h : StringAt m a (b :: str)) : StringAt m (a + 1) str := by
  constructor
  · intro i hi
    rw [Nat.add_right_comm]
    exact h.bytes (i + 1) (Nat.succ_lt_succ hi)
  · rw [Nat.add_right_comm]
    exact h.nul

theorem StringAt.store {m : Mem} {a i : Nat} {str : List (BitVec 8)}
    (h : StringAt m a str) (b : BitVec 8)
    (hi : i < a ∨ a + str.length < i) : StringAt (storeByte m i b) a str := by
  constructor
  · intro j hj
    rw [storeByte_other (by omega)]
    exact h.bytes j hj
  · rw [storeByte_other (by omega)]
    exact h.nul

/-! ## Moving over bytes -/

def scanRound (load : Nat → EStateM ε σ (BitVec 8)) (p : BitVec 8 → Bool) (t : Nat) :
    EStateM ε σ (Nat ⊕ Nat) := do
  if p (← load t) then return .inl (t + 1) else return .inr t

/-- `while (p(*t)) t++`, at most `n` rounds. -/
def scan (stop : ε) (load : Nat → EStateM ε σ (BitVec 8)) (p : BitVec 8 → Bool) (n t : Nat) :
    EStateM ε σ Nat := iterate stop (scanRound load p) n t

theorem scan_apply {stop : ε} {load : Nat → EStateM ε σ (BitVec 8)} {p : BitVec 8 → Bool}
    {f : Nat → BitVec 8} {s : σ} {e : Nat} (hend : p (f e) = false) :
    ∀ {n t : Nat}, t ≤ e → e - t < n → (∀ i, t ≤ i → i ≤ e → load i s = .ok (f i) s) →
      (∀ i, t ≤ i → i < e → p (f i) = true) → scan stop load p n t s = .ok e s
  | 0, _, _, hn, _, _ => absurd hn (Nat.not_lt_zero _)
  | n + 1, t, hte, hn, hload, hp => by
    rcases Nat.eq_or_lt_of_le hte with rfl | hlt
    · refine iterate_done ?_
      unfold scanRound
      rw [bind_of_ok (hload t (Nat.le_refl t) (Nat.le_refl t)), if_neg (by simpa using hend)]
      rfl
    · have hround : scanRound load p t s = .ok (.inl (t + 1)) s := by
        unfold scanRound
        rw [bind_of_ok (hload t (Nat.le_refl t) hte), if_pos (hp t (Nat.le_refl t) hlt)]
        rfl
      have hrest : scan stop load p n (t + 1) s = .ok e s :=
        scan_apply hend hlt (by omega) (fun i h1 h2 => hload i (by omega) h2)
          fun i h1 h2 => hp i (by omega) h2
      exact (iterate_next hround).trans hrest

def strlen (stop : ε) (load : Nat → EStateM ε σ (BitVec 8)) (n : Nat) : EStateM ε σ Nat :=
  scan stop load (fun c => c ≠ 0) n 0

/-- The function reads the string, and changes nothing. -/
def Reads (load : Nat → EStateM ε σ (BitVec 8)) (str : CStr) (s : σ) : Prop :=
  ∀ i, i ≤ str.length → load i s = .ok (str.byte i) s

theorem strlen_apply {stop : ε} {load : Nat → EStateM ε σ (BitVec 8)} {str : CStr} {s : σ} {n : Nat}
    (h : Reads load str s) (hn : str.length < n) : strlen stop load n s = .ok str.length s := by
  apply scan_apply (f := str.byte)
  · simpa using str.byte_length
  · exact Nat.zero_le _
  · exact hn
  · exact fun i _ hi => h i hi
  · exact fun i _ hi => by simpa using str.byte_ne_zero hi

/-! ## Copying -/

def copyRound (store : Nat → BitVec 8 → EStateM ε σ Unit) (load : Nat → EStateM ε σ (BitVec 8))
    (i : Nat) :
    EStateM ε σ (Nat ⊕ Unit) := do
  let c ← load i
  store i c
  if c ≠ 0 then return .inl (i + 1) else return .inr ()

/-- `while ((*dest++ = *src++))`. -/
def strcpy (stop : ε) (store : Nat → BitVec 8 → EStateM ε σ Unit)
    (load : Nat → EStateM ε σ (BitVec 8))
    (n : Nat) : EStateM ε σ Unit := iterate stop (copyRound store load) n 0

/-- The first `n` bytes are those of `f`. -/
def overlay (m : Mem) (f : Nat → BitVec 8) (n : Nat) : Mem := fun i => if i < n then f i else m i

theorem store_overlay (m : Mem) (f : Nat → BitVec 8) (n : Nat) :
    storeByte (overlay m f n) n (f n) = overlay m f (n + 1) := by
  funext i
  by_cases hi : i = n
  · subst hi
    rw [storeByte_same, overlay, if_pos (Nat.lt_succ_self i)]
  · rw [storeByte_other hi]
    unfold overlay
    by_cases h : i < n
    · rw [if_pos h, if_pos (by omega)]
    · rw [if_neg h, if_neg (by omega)]

theorem overlay_stringAt (m : Mem) (str : CStr) :
    StringAt (overlay m str.byte (str.length + 1)) 0 str.bytes := by
  constructor
  · intro i hi
    rw [Nat.zero_add, overlay, if_pos (show i < str.length + 1 from Nat.lt_succ_of_lt hi),
      str.byte_lt hi]
  · rw [Nat.zero_add, overlay,
      if_pos (show str.bytes.length < str.length + 1 from Nat.lt_succ_self _)]
    exact str.byte_length

theorem copyLoop_apply {stop : ε} {store : Nat → BitVec 8 → EStateM ε σ Unit}
    {load : Nat → EStateM ε σ (BitVec 8)} {str : CStr} {St : Nat → σ}
    (hload : ∀ i, i ≤ str.length → load i (St i) = .ok (str.byte i) (St i))
    (hstore : ∀ i, i ≤ str.length → store i (str.byte i) (St i) = .ok () (St (i + 1))) :
    ∀ {n i : Nat}, i ≤ str.length → str.length - i < n →
      iterate stop (copyRound store load) n i (St i) = .ok () (St (str.length + 1))
  | 0, _, _, hn => absurd hn (Nat.not_lt_zero _)
  | n + 1, i, hi, hn => by
    have h1 := hload i hi
    have h2 := hstore i hi
    rcases Nat.eq_or_lt_of_le hi with rfl | hlt
    · refine iterate_done ?_
      unfold copyRound
      rw [bind_of_ok h1, bind_of_ok h2, if_neg (not_not.mpr str.byte_length)]
      rfl
    · have hround : copyRound store load i (St i) = .ok (.inl (i + 1)) (St (i + 1)) := by
        unfold copyRound
        rw [bind_of_ok h1, bind_of_ok h2, if_pos (str.byte_ne_zero hlt)]
        rfl
      exact (iterate_next hround).trans (copyLoop_apply hload hstore hlt (by omega))

/-- The copy ends after the NUL; `St i` is the state after `i` bytes. -/
theorem strcpy_apply {stop : ε} {store : Nat → BitVec 8 → EStateM ε σ Unit}
    {load : Nat → EStateM ε σ (BitVec 8)} (str : CStr) (St : Nat → σ) {n : Nat}
    (hload : ∀ i, i ≤ str.length → load i (St i) = .ok (str.byte i) (St i))
    (hstore : ∀ i, i ≤ str.length → store i (str.byte i) (St i) = .ok () (St (i + 1)))
    (hn : str.length < n) : strcpy stop store load n (St 0) = .ok () (St (str.length + 1)) :=
  copyLoop_apply hload hstore (Nat.zero_le _) hn

/-! ## Comparing -/

def compareRound (load₁ load₂ : Nat → EStateM ε σ (BitVec 8)) (i : Nat) :
    EStateM ε σ (Nat ⊕ Int) := do
  let c₁ ← load₁ i
  let c₂ ← load₂ i
  if c₁ ≠ 0 ∧ c₁ = c₂ then return .inl (i + 1) else return .inr ((c₁.toNat : Int) - c₂.toNat)

/-- `while (*s1 && *s1 == *s2)`, then the difference of the two bytes. -/
def strcmp (stop : ε) (load₁ load₂ : Nat → EStateM ε σ (BitVec 8)) (n : Nat) : EStateM ε σ Int :=
  iterate stop (compareRound load₁ load₂) n 0

section Compare

variable {s₁ s₂ : CStr} {i : Nat}

/-- Where the loop stops, the bytes agree exactly if the strings do. -/
theorem CStr.eq_iff_stop (h₁ : i ≤ s₁.length) (h₂ : i ≤ s₂.length)
    (hpre : ∀ j, j < i → s₁.byte j = s₂.byte j)
    (hstop : ¬ (s₁.byte i ≠ 0 ∧ s₁.byte i = s₂.byte i)) :
    ((s₁.byte i).toNat : Int) - (s₂.byte i).toNat = 0 ↔ s₁.bytes = s₂.bytes := by
  have hdiff : ((s₁.byte i).toNat : Int) - (s₂.byte i).toNat = 0 ↔ s₁.byte i = s₂.byte i := by
    rw [← BitVec.toNat_inj]
    omega
  rw [hdiff]
  constructor
  · intro heq
    have h0 : s₁.byte i = 0 := by
      by_contra hne
      exact hstop ⟨hne, heq⟩
    have hl₁ : i = s₁.length := by
      by_contra hne
      exact s₁.byte_ne_zero (by omega) h0
    have hl₂ : i = s₂.length := by
      by_contra hne
      exact s₂.byte_ne_zero (by omega) (heq ▸ h0)
    exact ext_byte (hl₁.symm.trans hl₂) fun j hj => hpre j (by omega)
  · intro heq
    unfold byte
    rw [heq]

/-- A round that goes on is before the end of both strings. -/
theorem CStr.lt_of_next (h₁ : i ≤ s₁.length) (h₂ : i ≤ s₂.length) (h0 : s₁.byte i ≠ 0)
    (heq : s₁.byte i = s₂.byte i) : i < s₁.length ∧ i < s₂.length := by
  constructor
  · rcases Nat.lt_or_eq_of_le h₁ with h | h
    · exact h
    · exact absurd (h ▸ s₁.byte_length) h0
  · rcases Nat.lt_or_eq_of_le h₂ with h | h
    · exact h
    · exact absurd (heq.trans (h ▸ s₂.byte_length)) h0

end Compare

theorem compareLoop_apply {stop : ε} {load₁ load₂ : Nat → EStateM ε σ (BitVec 8)}
    {s₁ s₂ : CStr} {s : σ} (h₁ : Reads load₁ s₁ s) (h₂ : Reads load₂ s₂ s) :
    ∀ {n i : Nat}, i ≤ s₁.length → i ≤ s₂.length → s₁.length - i < n →
      (∀ j, j < i → s₁.byte j = s₂.byte j) →
      ∃ d, iterate stop (compareRound load₁ load₂) n i s = .ok d s ∧ (d = 0 ↔ s₁.bytes = s₂.bytes)
  | 0, _, _, _, hn, _ => absurd hn (Nat.not_lt_zero _)
  | n + 1, i, hi₁, hi₂, hn, hpre => by
    by_cases hgo : s₁.byte i ≠ 0 ∧ s₁.byte i = s₂.byte i
    · obtain ⟨hlt₁, hlt₂⟩ := CStr.lt_of_next hi₁ hi₂ hgo.1 hgo.2
      have hround : compareRound load₁ load₂ i s = .ok (.inl (i + 1)) s := by
        unfold compareRound
        rw [bind_of_ok (h₁ i hi₁), bind_of_ok (h₂ i hi₂), if_pos hgo]
        rfl
      have hpre' : ∀ j, j < i + 1 → s₁.byte j = s₂.byte j := by
        intro j hj
        rcases Nat.lt_or_eq_of_le (Nat.lt_succ_iff.mp hj) with h | rfl
        · exact hpre j h
        · exact hgo.2
      obtain ⟨d, hd, hiff⟩ := compareLoop_apply h₁ h₂ (n := n) hlt₁ hlt₂ (by omega) hpre'
      exact ⟨d, (iterate_next hround).trans hd, hiff⟩
    · have hround : compareRound load₁ load₂ i s =
          .ok (.inr (((s₁.byte i).toNat : Int) - (s₂.byte i).toNat)) s := by
        unfold compareRound
        rw [bind_of_ok (h₁ i hi₁), bind_of_ok (h₂ i hi₂), if_neg hgo]
        rfl
      exact ⟨_, iterate_done hround, CStr.eq_iff_stop hi₁ hi₂ hpre hgo⟩

theorem strcmp_apply {stop : ε} {load₁ load₂ : Nat → EStateM ε σ (BitVec 8)}
    {s₁ s₂ : CStr} {s : σ} {n : Nat}
    (h₁ : Reads load₁ s₁ s) (h₂ : Reads load₂ s₂ s) (hn : s₁.length < n) :
    ∃ d, strcmp stop load₁ load₂ n s = .ok d s ∧ (d = 0 ↔ s₁.bytes = s₂.bytes) :=
  compareLoop_apply h₁ h₂ (Nat.zero_le _) (Nat.zero_le _) hn fun j hj =>
    absurd hj (Nat.not_lt_zero j)

/-! ## Words -/

section Words

variable {α : Type} {p : α → Bool}

/-- The maximal runs of elements that are no separators. -/
def splitWords (p : α → Bool) (l : List α) : List (List α) :=
  (l.splitOnP p).filter fun w => !w.isEmpty

theorem splitWords_nil : splitWords p [] = [] := by
  simp [splitWords]

theorem splitWords_separators {l : List α} : ∀ {b : List α}, (∀ x ∈ b, p x = true) →
    splitWords p (b ++ l) = splitWords p l
  | [], _ => rfl
  | x :: b, h => by
    have hx := h x List.mem_cons_self
    have ih := splitWords_separators (l := l) fun y hy => h y (List.mem_cons_of_mem x hy)
    rw [← ih, List.cons_append]
    unfold splitWords
    rw [List.splitOnP_cons_eq_if_modifyHead, if_pos hx]
    rfl

theorem words_cases (p : α → Bool) (l : List α) : (∀ x ∈ l, p x = true) ∨
    ∃ b w r, l = b ++ (w ++ r) ∧ (∀ x ∈ b, p x = true) ∧ w ≠ [] ∧ (∀ x ∈ w, p x = false) ∧
      (r = [] ∨ ∃ x r', r = x :: r' ∧ p x = true) := by
  have hb : l = l.takeWhile p ++ l.dropWhile p := List.takeWhile_append_dropWhile.symm
  have hblank : ∀ x ∈ l.takeWhile p, p x = true := fun x hx => List.mem_takeWhile_imp hx
  cases hl : l.dropWhile p with
  | nil =>
    rw [hl, List.append_nil] at hb
    rw [hb]
    exact .inl hblank
  | cons y l' =>
    have hy : p y = false := by
      have := List.head_dropWhile_not p (l := l) (by rw [hl]; simp)
      simpa [hl] using this
    have hw : y :: l' = (y :: l').takeWhile (fun x => !p x) ++ (y :: l').dropWhile
      (fun x => !p x) :=
      List.takeWhile_append_dropWhile.symm
    refine .inr ⟨l.takeWhile p, (y :: l').takeWhile (fun x => !p x),
      (y :: l').dropWhile (fun x => !p x),
      ?_, hblank, ?_, fun x hx => ?_, ?_⟩
    · rw [← hw, ← hl]
      exact hb
    · simp [hy]
    · simpa using List.mem_takeWhile_imp hx
    · cases hr : (y :: l').dropWhile (fun x => !p x) with
      | nil => exact .inl rfl
      | cons x r' =>
        have := List.head_dropWhile_not (fun x => !p x) (l := y :: l') (by rw [hr]; simp)
        exact .inr ⟨x, r', rfl, by simpa [hr] using this⟩

theorem splitWords_last {w : List α} (hne : w ≠ []) (h : ∀ x ∈ w, p x = false) :
    splitWords p w = [w] := by
  unfold splitWords
  rw [List.splitOnP_eq_singleton h]
  simp [hne]

theorem splitWords_word {w l : List α} {x : α} (hne : w ≠ []) (h : ∀ x ∈ w, p x = false)
    (hx : p x = true) : splitWords p (w ++ x :: l) = w :: splitWords p l := by
  unfold splitWords
  rw [List.splitOnP_append_cons_of_forall_mem h x hx, List.filter_cons_of_pos (by simp [hne])]

end Words

end Kfs.Lib
