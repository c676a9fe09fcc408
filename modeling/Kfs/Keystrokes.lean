import Kfs.KernelKeys

/-!
# Typing a line

For each printable character there is a key that types it, alone or with shift, and
with caps lock another one. `typeLines` is the inverse of the typist: it turns lines
into the scancodes that submit just these lines (`types_lines`). So every line can be
given to the shell from the keyboard, and the kernel then runs it (`lines_typed_in`).
-/

namespace Kfs

open Kfs.Lib

/-! ## Keys -/

/-- What caps lock does to a character. -/
def swapCase (c : BitVec 8) : BitVec 8 :=
  if isBetween c lowerA lowerZ then c - lowerA + upperA
  else if isBetween c upperA upperZ then c - upperA + lowerA
  else c

/-- The keys that type and have a release of their own: the release of `0x60` is the prefix. -/
def typingKeys : List (Fin 128) :=
  (List.finRange 128).filter fun i => BitVec.ofNat 8 i ∉ caseKeys ∧
    BitVec.ofNat 8 i ||| 0x80 ≠ extendedPrefix

def charTableOf (shift : Bool) : Vector (BitVec 8) 128 :=
  if shift then asciiTableShift else asciiTable

/-- The key for `c` without caps lock, and whether shift must be down. -/
def strike (c : BitVec 8) : Option (Bool × Fin 128) :=
  match typingKeys.find? fun i => (charTableOf false)[i] = c with
  | some i => some (false, i)
  | none => (typingKeys.find? fun i => (charTableOf true)[i] = c).map fun i => (true, i)

def tap (scancode : BitVec 8) : List (BitVec 8) := [scancode, scancode ||| 0x80]

/-- The scancodes that type `c`, with shift and caps lock as in `keys`. -/
def keystrokes (keys : KeyboardState) (c : BitVec 8) : List (BitVec 8) :=
  match strike (if keys.capsLock ≠ 0 then swapCase c else c) with
  | some (false, i) => tap (BitVec.ofNat 8 i)
  | some (true, i) => keyLeftShift :: tap (BitVec.ofNat 8 i) ++ [keyLeftShift ||| 0x80]
  | none => []

def keyEnter : BitVec 8 := 0x1C

def typeLine (keys : KeyboardState) (line : List (BitVec 8)) : List (BitVec 8) :=
  line.flatMap (keystrokes keys) ++ tap keyEnter

def typeLines (keys : KeyboardState) (lines : List (List (BitVec 8))) : List (BitVec 8) :=
  lines.flatMap (typeLine keys)

@[simp] def Printable (c : BitVec 8) : Prop := 32 ≤ c.toNat ∧ c.toNat ≤ 126

/-- A line that the input line has room for. -/
structure Typable (line : List (BitVec 8)) : Prop where
  printable : ∀ c ∈ line, Printable c
  fits : line.length ≤ 3999

/-! ## The tables -/

theorem swapCase_swapCase : ∀ c, swapCase (swapCase c) = c := by decide

theorem swapCase_printable : ∀ c, 32 ≤ c.toNat ∧ c.toNat ≤ 126 →
    32 ≤ (swapCase c).toNat ∧ (swapCase c).toNat ≤ 126 := by decide

theorem strike_isSome {c : BitVec 8} (h : Printable c) : (strike c).isSome := by
  have htable : ∀ n : Fin 95, (strike (BitVec.ofNat 8 (32 + n))).isSome := by decide +kernel
  obtain ⟨hlo, hhi⟩ := h
  have := htable ⟨c.toNat - 32, by omega⟩
  rwa [Nat.add_sub_cancel' hlo, BitVec.ofNat_toNat, BitVec.setWidth_eq] at this

theorem strike_key {c : BitVec 8} {shift : Bool} {i : Fin 128} (h : strike c = some (shift, i)) :
    i ∈ typingKeys ∧ (charTableOf shift)[i] = c := by
  have hfind :
      ∀ {b : Bool} {j : Fin 128}, (typingKeys.find? fun i => (charTableOf b)[i] = c) = some j →
      j ∈ typingKeys ∧ (charTableOf b)[j] = c := fun hj =>
    ⟨List.mem_of_find?_eq_some hj, by simpa using List.find?_some hj⟩
  unfold strike at h
  split at h
  · next j hj =>
    cases h
    exact hfind hj
  · obtain ⟨j, hj, hji⟩ := Option.map_eq_some_iff.mp h
    cases hji
    exact hfind hj

theorem charOf_eq {keys : KeyboardState} {shift : Bool} (hs : keys.shiftPressed ≠ 0 ↔ shift = true)
    (i : Fin 128) : charOf keys (BitVec.ofNat 8 i) =
      if keys.capsLock ≠ 0 then swapCase (charTableOf shift)[i] else (charTableOf shift)[i] := by
  have hi : (BitVec.ofNat 8 i).toNat = i := by
    rw [BitVec.toNat_ofNat]
    exact Nat.mod_eq_of_lt (by omega)
  have hlt : (BitVec.ofNat 8 i).toNat < 128 := by omega
  have hc : (if keys.shiftPressed ≠ 0 then asciiTableShift[(BitVec.ofNat 8 i).toNat]
      else asciiTable[(BitVec.ofNat 8 i).toNat]) = (charTableOf shift)[i] := by
    unfold charTableOf
    simp only [hi, hs]
    split <;> rfl
  unfold charOf swapCase
  rw [dif_pos hlt]
  dsimp only
  rw [hc]
  by_cases hk : keys.capsLock = 0
  · simp only [hk, ne_eq, not_true_eq_false, decide_false, Bool.false_and,
      Bool.false_eq_true, ↓reduceIte]
  · simp only [hk, ne_eq, not_false_eq_true, decide_true, Bool.true_and, ↓reduceIte]

/-! ## One character -/

/-- No key is half pressed: no prefix came, and shift is up. -/
structure Typist.Idle (t : Typist) : Prop where
  extended : t.extended = 0
  shift : t.keys.shiftPressed = 0

namespace Typist

theorem types_append (t : Typist) (a b : List (BitVec 8)) :
    t.types (a ++ b) = (((t.types a).1.types b).1, (t.types a).2 ++ ((t.types a).1.types b).2) := by
  induction a generalizing t with
  | nil => rfl
  | cons c a ih =>
    rw [List.cons_append, types, ih, types]
    simp only [List.append_assoc]

/-! ### Keys -/

theorem code_cases : ∀ i : Fin 128, BitVec.ofNat 8 i ≠ extendedPrefix ∧
    BitVec.ofNat 8 i &&& 0x80 = 0 ∧
    (BitVec.ofNat 8 i ||| 0x80) &&& 0x80 ≠ 0 ∧ (BitVec.ofNat 8 i ||| 0x80) &&& 0x7F =
      BitVec.ofNat 8 i ∧
    screenOf (BitVec.ofNat 8 i ||| 0x80) = none := by decide

theorem mem_typingKeys {i : Fin 128} (h : i ∈ typingKeys) :
    BitVec.ofNat 8 i ∉ caseKeys ∧ BitVec.ofNat 8 i ||| 0x80 ≠ extendedPrefix :=
  of_decide_eq_true (List.mem_filter.mp h).2

theorem screenOf_case {scancode : BitVec 8} (h : scancode ∉ caseKeys) :
    screenOf scancode = none := by
  simp only [caseKeys, List.cons_append, List.mem_cons, not_or] at h
  unfold screenOf
  simp only [h, ↓reduceIte]

variable {t : Typist}

theorem key_press (h0 : t.extended = 0) (i : Fin 128) :
    t.key (BitVec.ofNat 8 i) = ({ (t.press (BitVec.ofNat 8 i)).1 with extended := 0 },
      (t.press (BitVec.ofNat 8 i)).2) := by
  obtain ⟨hpre, hpress, -⟩ := code_cases i
  unfold key
  rw [if_neg hpre, if_pos hpress, if_neg (not_not.mpr h0)]

theorem key_release (h0 : t.extended = 0) {i : Fin 128} (hi : i ∈ typingKeys) :
    t.key (BitVec.ofNat 8 i ||| 0x80) = (t, []) := by
  obtain ⟨-, -, hrel, hcode, -⟩ := code_cases i
  obtain ⟨hcase, hpre⟩ := mem_typingKeys hi
  simp only [caseKeys, List.cons_append, List.mem_cons, not_or] at hcase
  unfold key release
  simp only [if_neg hpre, if_neg hrel, hcode, hcase, or_self, ↓reduceIte]
  rw [← h0]

/-- **A key that types** `c`: press and release. -/
theorem types_tap (h0 : t.extended = 0) {i : Fin 128} (hi : i ∈ typingKeys) {c : BitVec 8}
    (hc : charOf t.keys (BitVec.ofNat 8 i) = c) (hp : Printable c) :
    t.types (tap (BitVec.ofNat 8 i)) = (t.edit (.insert c), []) := by
  have hpress : t.key (BitVec.ofNat 8 i) = (t.edit (.insert c), []) := by
    have hback : c ≠ backspace := by
      rintro rfl
      exact absurd hp.1 (by decide)
    have hnew : c ≠ newline := by
      rintro rfl
      exact absurd hp.1 (by decide)
    rw [key_press h0 i, press_types (mem_typingKeys hi).1, hc, if_neg hback, if_neg hnew]
    refine Prod.ext ?_ rfl
    show ({ t.edit (.insert c) with extended := 0 } : Typist) = t.edit (.insert c)
    rw [← show (t.edit (.insert c)).extended = 0 from h0]
  unfold tap
  rw [types, types, types, hpress, key_release (t := t.edit (.insert c)) h0 hi]
  rfl

theorem key_shift (h0 : t.extended = 0) (v : BitVec 8) (scancode : BitVec 8)
    (h : (scancode, v) = (keyLeftShift, 1) ∨ (scancode, v) = (keyLeftShift ||| 0x80, 0)) :
    t.key scancode = ({ t with keys := { t.keys with shiftPressed := v } }, []) := by
  obtain ⟨keys, extended, lines, current⟩ := t
  cases h0
  rcases h with h | h <;> cases h <;> rfl

/-- **A character**: its keystrokes type it, and leave the modifiers as they were. -/
theorem types_char (h : t.Idle) {c : BitVec 8} (hp : Printable c) :
    t.types (keystrokes t.keys c) = (t.edit (.insert c), []) := by
  have hswap : Printable (if t.keys.capsLock ≠ 0 then swapCase c else c) := by
    split
    · exact swapCase_printable c hp
    · exact hp
  obtain ⟨⟨shift, i⟩, hsi⟩ := Option.isSome_iff_exists.mp (strike_isSome hswap)
  obtain ⟨hi, hic⟩ := strike_key hsi
  -- with caps lock the key's character is swapped back
  have hchar : ∀ keys : KeyboardState, keys.capsLock = t.keys.capsLock →
    (keys.shiftPressed ≠ 0 ↔ shift = true) →
      charOf keys (BitVec.ofNat 8 i) = c := by
    intro keys hcaps hs
    rw [charOf_eq hs, hic, hcaps]
    split
    · exact swapCase_swapCase c
    · rfl
  unfold keystrokes
  rw [hsi]
  cases shift with
  | false => exact types_tap h.extended hi (hchar t.keys rfl (by simp [h.shift])) hp
  | true =>
    obtain ⟨t₁, ht₁⟩ : ∃ t₁ : Typist, t₁ = { t with keys := { t.keys with shiftPressed := 1 } } :=
      ⟨_, rfl⟩
    have hdown : t.key keyLeftShift = (t₁, []) := by
      rw [ht₁]
      exact key_shift h.extended 1 _ (.inl rfl)
    have h₁ : t₁.extended = 0 := by
      rw [ht₁]
      exact h.extended
    have hs₁ : t₁.keys.shiftPressed ≠ 0 ↔ true = true := by
      rw [ht₁]
      exact iff_of_true (show (1 : BitVec 8) ≠ 0 by decide) rfl
    have htap := types_tap h₁ hi (hchar t₁.keys (by rw [ht₁]) hs₁) hp
    have hup : (t₁.edit (.insert c)).key (keyLeftShift ||| 0x80) = (t.edit (.insert c), []) := by
      rw [key_shift (t := t₁.edit (.insert c)) h₁ 0 _ (.inr rfl), ht₁]
      refine Prod.ext ?_ rfl
      show ({ t.edit (.insert c) with keys := { t.keys with shiftPressed := 0 } } : Typist) =
        t.edit (.insert c)
      rw [← h.shift]
      rfl
    dsimp only
    rw [List.cons_append, types, hdown, types_append, htap, types, hup]
    rfl

/-! ## Lines -/

theorem setLine_setLine (t : Typist) (e e' : Editor) : (t.setLine e).setLine e' = t.setLine e' := by
  unfold setLine
  simp only [Function.update_idem]

theorem line_setLine (t : Typist) (e : Editor) : (t.setLine e).line = e := Function.update_self ..

/-- **A line**: its keystrokes put it behind what is there. -/
theorem types_text (h : t.Idle) :
    ∀ {text : List (BitVec 8)} {e : Editor}, (∀ c ∈ text, Printable c) →
    e.cursor = e.text.length → e.text.length + text.length ≤ 3999 →
    ∃ e', (t.setLine e).types (text.flatMap (keystrokes t.keys)) = (t.setLine e', []) ∧
      e'.text = e.text ++ text
  | [], e, _, _, _ => ⟨e, rfl, (List.append_nil _).symm⟩
  | c :: text, e, hp, hk, hlen => by
    rw [List.length_cons] at hlen
    have hc := hp c List.mem_cons_self
    have hstep : e.step (.insert c) = ⟨e.text ++ [c], e.cursor + 1, true⟩ := by
      show (if _ then _ else e : Editor) = _
      rw [if_pos ⟨hc.1, hc.2, by omega⟩, hk, List.insertIdx_length_self]
    have hidle : (t.setLine e).Idle := ⟨h.extended, h.shift⟩
    have hchar := types_char hidle hc
    have hedit : (t.setLine e).edit (.insert c) = t.setLine (e.step (.insert c)) := by
      unfold edit
      rw [line_setLine, setLine_setLine]
    rw [hedit, hstep] at hchar
    obtain ⟨e', hr, he'⟩ := types_text h (e := ⟨e.text ++ [c], e.cursor + 1, true⟩)
      (fun d hd => hp d (List.mem_cons_of_mem c hd)) (by simp [hk]) (by simp; omega)
    refine ⟨e', ?_, by rw [he', List.append_assoc]; rfl⟩
    rw [List.flatMap_cons, types_append]
    change (t.setLine e).types (keystrokes t.keys c) = _ at hchar
    rw [hchar, hr]
    rfl

theorem charOf_enter (keys : KeyboardState) : charOf keys keyEnter = newline := by
  have htable : ∀ b, (charTableOf b)[(0x1C : Fin 128)] = newline := by decide
  have hswap : swapCase newline = newline := by decide
  have hs : keys.shiftPressed ≠ 0 ↔ decide (keys.shiftPressed ≠ 0) = true := decide_eq_true_iff.symm
  show charOf keys (BitVec.ofNat 8 (0x1C : Fin 128)) = newline
  rw [charOf_eq hs, htable, hswap, ite_self]

theorem types_enter (h0 : t.extended = 0) :
    t.types (tap keyEnter) = (t.setLine Editor.empty, [t.line.text]) := by
  have hi : (0x1C : Fin 128) ∈ typingKeys := by decide
  have hchar : charOf t.keys (BitVec.ofNat 8 (0x1C : Fin 128)) = newline := charOf_enter t.keys
  have hpress :
      t.key (BitVec.ofNat 8 (0x1C : Fin 128)) = (t.setLine Editor.empty, [t.line.text]) := by
    rw [key_press h0, press_types (mem_typingKeys hi).1, hchar, if_neg (by decide), if_pos rfl]
    refine Prod.ext ?_ rfl
    show ({ t.setLine Editor.empty with extended := 0 } : Typist) = t.setLine Editor.empty
    rw [← show (t.setLine Editor.empty).extended = 0 from h0]
  show t.types (tap (BitVec.ofNat 8 (0x1C : Fin 128))) = _
  unfold tap
  rw [types, types, types, hpress, key_release (t := t.setLine Editor.empty) h0 hi]
  rfl

/-- **What is typed comes out**: the lines are submitted, and nothing else is. -/
theorem types_lines (h : t.Idle) (h0 : t.line = Editor.empty) : ∀ {lines : List (List (BitVec 8))},
    (∀ l ∈ lines, Typable l) → t.types (typeLines t.keys lines) = (t, lines)
  | [], _ => rfl
  | l :: lines, hl => by
    have hline := hl l List.mem_cons_self
    have ht : t.setLine Editor.empty = t := by
      rw [← h0]
      unfold setLine Typist.line
      rw [Function.update_eq_self]
    obtain ⟨e, hr, he⟩ := types_text h hline.printable (e := Editor.empty) rfl
      (show 0 + l.length ≤ 3999 by have := hline.fits; omega)
    rw [ht] at hr
    have henter := types_enter (t := t.setLine e) h.extended
    rw [line_setLine, setLine_setLine, ht, he] at henter
    have hrest := types_lines h h0 fun m hm => hl m (List.mem_cons_of_mem l hm)
    unfold typeLines at hrest ⊢
    rw [List.flatMap_cons, typeLine, types_append, types_append, hr, henter, hrest]
    rfl

theorem clean_lines (t : Typist) (keys : KeyboardState) (lines : List (List (BitVec 8))) :
    t.Clean (typeLines keys lines) := by
  have htap : ∀ i ∈ typingKeys, ∀ c ∈ tap (BitVec.ofNat 8 i), screenOf c = none := by
    intro i hi c hc
    simp only [tap, List.mem_cons, List.not_mem_nil, or_false] at hc
    rcases hc with rfl | rfl
    · exact screenOf_case (mem_typingKeys hi).1
    · exact (code_cases i).2.2.2.2
  refine clean_of_no_screen (fun c hc => ?_) t
  obtain ⟨l, -, hc⟩ := List.mem_flatMap.mp hc
  rcases List.mem_append.mp hc with hc | hc
  · obtain ⟨b, -, hc⟩ := List.mem_flatMap.mp hc
    unfold keystrokes at hc
    split at hc
    · next i hi => exact htap i (strike_key hi).1 c hc
    · next i hi =>
      rcases List.mem_append.mp hc with hc | hc
      · rcases List.mem_cons.mp hc with rfl | hc
        · rfl
        · exact htap i (strike_key hi).1 c hc
      · rw [List.mem_singleton.mp hc]
        rfl
    · cases hc
  · exact htap 0x1C (by decide) c hc

end Typist

/-! ## The kernel -/

variable {M : Type} [Bus M] (cfg : Setup)

theorem typeLines_trace {C : List (BitVec 8) → Prop} {k : Kernel M}
    {t : Typist} (hk : TypedBy k.keyboard t)
    (hidle : t.Idle) (hempty : t.line = Editor.empty) {lines : List (List (BitVec 8))}
    (hl : ∀ l ∈ lines, Typable l) (hC : ∀ l ∈ lines, C l) {s : State M}
    (hrun : runLines cfg lines k.st = .ok () s) :
    ∃ tr, tr.map Prod.fst = typeLines t.keys lines ∧ Trace (KernelStep cfg) k tr ∧
    Meets (SubmitsOnly C) k tr ∧
      (lastOf k tr).st = s := by
  have htypes := t.types_lines hidle hempty hl
  have hclean := t.clean_lines t.keys lines
  have hagree := typeCodes_agree cfg (typeLines t.keys lines) hk hclean
  rw [htypes] at hagree
  obtain ⟨k', hcodes, hd⟩ := hagree.ok_right hrun
  obtain ⟨tr, hmap, ht, hm, hlast⟩ :=
    typeCodes_trace cfg hk hclean (by rw [htypes]; exact hC) hcodes
  exact ⟨tr, hmap, ht, hm, by rw [hlast]; exact hd.2⟩

/-- **Every line can be typed in.** Take any list of lines of printable characters that fit
the input line. There are scancodes that make the kernel run exactly these lines, whether
caps lock is on or not: it stops if and only if one of the lines does, its memory ends as
the lines leave it, and it waits for the next line with the modifiers as they were. A line
that follows a stray pointer into the kernel's own memory stops there, typed in or not. -/
theorem lines_typed_in [Physical M] {k : Kernel (Guarded M)}
    {t : Typist} (hk : TypedBy k.keyboard t) (hidle : t.Idle)
    (hempty : t.line = Editor.empty) {lines : List (List (BitVec 8))}
    (hl : ∀ l ∈ lines, Typable l) :
    Agree (Displays t) SameMemory (Kernel.typeCodes cfg (typeLines t.keys lines) k)
      (runLines cfg lines k.st) := by
  have h := typeCodes_agree cfg (typeLines t.keys lines) hk (t.clean_lines _ _)
  rwa [t.types_lines hidle hempty hl] at h

/-- A line with a capital and a digit, and an empty one. -/
theorem lines_typed_in_echo : Agree (Displays Typist.fresh) SameMemory
    (Kernel.typeCodes Setup.readme (typeLines ⟨0, 0, 0⟩ [bytesOf "echo A1", []])
      (Kernel.blank (State.boot (Guarded.mk Mmu.blank))))
    (runLines Setup.readme [bytesOf "echo A1", []] (State.boot (Guarded.mk Mmu.blank))) :=
  lines_typed_in Setup.readme (Kernel.blank_typed (State.boot (Guarded.mk Mmu.blank)))
    ⟨rfl, rfl⟩ rfl (by
    simp only [List.mem_cons, List.not_mem_nil, or_false]
    rintro l (rfl | rfl)
    · have hprintable : ∀ c ∈ bytesOf "echo A1", 32 ≤ c.toNat ∧ c.toNat ≤ 126 := by decide
      exact ⟨hprintable, by decide⟩
    · exact ⟨by simp, Nat.zero_le _⟩)

end Kfs
