import Kfs.ScreenShow
import Kfs.Printf

/-!
# Text over the end of a row

`screen_putchar` goes to the next row when the cursor is past column 80. So a row
takes 81 characters, and its last one is put where the next row's first will be:
character `k` of a text is written `k - (x + k) / 81` cells after the row's start
(`landed`), and of two characters that meet in a cell the later one stays. A text
is on the screen as it should be when it ends at the latest in that cell; a longer
one falls short of its last cells and is right by coincidence only
(`putstring_in_place`).
-/

namespace Kfs

open Kfs.Lib

/-- The cell under the cursor, counted along the rows from the top left. -/
def Console.origin (c : Console) : Nat :=
  80 * (c.states c.current).cursorY + (c.states c.current).cursorX

/-- A character in the current colour. -/
def Console.entry (c : Console) (b : BitVec 8) : BitVec 16 := vgaEntry b (c.states c.current).color

/-- Printing `text` puts its characters into the cells from the cursor on, one after the
other, and changes no other cell. -/
def InPlace (c : Console) (text : List (BitVec 8)) : Prop :=
  ∃ c', screenPutstring text c = .ok () c' ∧
    (∀ i b, text[i]? = some b → c'.vga.cell (c.origin + i) = c.entry b) ∧
    ∀ j, j < c.origin ∨ c.origin + text.length ≤ j → c'.vga.cell j = c.vga.cell j

/-- **What a text must repeat.** The cell where character `i` belongs, `r` rows below the
cursor's, gets character `i + r` of the text; if the text ends right there, at the start of
the row, it keeps character `i + r - 1`; behind that it keeps what it held. -/
def Repeats (c : Console) (text : List (BitVec 8)) : Prop :=
  ∀ i b, text[i]? = some b →
    let j := (c.states c.current).cursorX + i
    let r := j / 80
    if i + r < text.length then text[i + r]? = some b
    else if i + r = text.length ∧ j % 80 = 0 then text[i + r - 1]? = some b
    else c.vga.cell (c.origin + i) = c.entry b

/-! ## One character -/

/-- A printable character has gone to the cell of the cursor, which is then at `(x, y)`. -/
structure Put (c : Console) (b : BitVec 8) (x y : Nat) (c' : Console) : Prop where
  column : (c'.states c'.current).cursorX = x
  row : (c'.states c'.current).cursorY = y
  color : (c'.states c'.current).color = (c.states c.current).color
  cells : ∀ j, c'.vga.cell j = if j = c.origin then c.entry b else c.vga.cell j

theorem screenPutchar_inside {c : Console} {b : BitVec 8} (hb : b ≠ newline ∧ b ≠ backspace)
    (hx : (c.states c.current).cursorX < 80) (hy : (c.states c.current).cursorY < 25) :
    ∃ c', screenPutchar b c = .ok () c' ∧
      Put c b ((c.states c.current).cursorX + 1) (c.states c.current).cursorY c' := by
  obtain ⟨c', hr, hcur, hst, hv⟩ := screenPutchar_plain (c := c) hb hx hy
  have hself : c'.states c'.current =
      { c.states c.current with cursorX := (c.states c.current).cursorX + 1 } := by
    rw [hst, hcur]
    exact Function.update_self _ _ _
  refine ⟨c', hr, by rw [hself], by rw [hself], by rw [hself], fun j => ?_⟩
  rw [hv, Vga.cell_set, Nat.mul_comm]
  rfl

/-- In column 80 the character is written first, then the row overflows. -/
theorem screenPutchar_overflow {c : Console} {b : BitVec 8} (hb : b ≠ newline ∧ b ≠ backspace)
    (hx : (c.states c.current).cursorX = 80) (hy : (c.states c.current).cursorY + 1 < 25) :
    ∃ c', screenPutchar b c = .ok () c' ∧ Put c b 0 ((c.states c.current).cursorY + 1) c' := by
  obtain ⟨s, hs⟩ : ∃ s, s = c.states c.current := ⟨_, rfl⟩
  rw [← hs] at hx hy ⊢
  obtain ⟨d, hd⟩ : ∃ d : Console, d = { c.setCur fun s => { s with cursorX := s.cursorX + 1 } with
    vga := c.vga.set (s.cursorY * screenWidth + s.cursorX) (vgaEntry b s.color) } := ⟨_, rfl⟩
  have hself : d.states d.current = { s with cursorX := s.cursorX + 1 } := by
    rw [hd, hs]
    exact Function.update_self _ _ _
  have hfirst : (do
      vgaWrite (s.cursorY * screenWidth + s.cursorX) (vgaEntry b s.color)
      setCur fun s => { s with cursorX := s.cursorX + 1 } : C Unit) c = .ok () d := by
    rw [hd]
    rfl
  obtain ⟨_, e, h1, h2⟩ := bind_eq_ok.mp hfirst
  obtain ⟨d', hd'⟩ :
      ∃ d', d' = d.setCur fun s => { s with cursorX := 0, cursorY := s.cursorY + 1 } :=
    ⟨_, rfl⟩
  have hself' : d'.states d'.current = { s with cursorX := 0, cursorY := s.cursorY + 1 } := by
    rw [hd', Console.setCur_current, Console.setCur_self, hself]
  obtain ⟨c', hr, hp⟩ := updateHardwareCursor_paints d'
  refine ⟨c', ?_, by rw [hp.cur, hself'], by rw [hp.cur, hself'], by rw [hp.cur, hself', ← hs],
    fun j => ?_⟩
  · unfold screenPutchar
    rw [cur_bind, if_neg hb.1, if_neg hb.2, ← hs, bind_of_ok h1, bind_of_ok h2]
    dsimp only
    rw [cur_bind, if_pos (by rw [hself]; show s.cursorX + 1 > 80; omega),
      bind_of_ok (setCur_apply _ d), ← hd', cur_bind,
      if_neg (by rw [hself']; show ¬ s.cursorY + 1 ≥ 25; omega)]
    exact hr
  · unfold Console.origin Console.entry
    rw [hp.cells, hd', ← hs]
    show d.vga.cell j = _
    rw [hd]
    show Vga.cell (Vga.set _ _ _) j = _
    rw [Vga.cell_set, Nat.mul_comm]
    rfl

/-- A printable character at any column up to 80, with no scroll after it: a row takes 81. -/
theorem screenPutchar_cells {c : Console} {b : BitVec 8} (hb : b ≠ newline ∧ b ≠ backspace)
    (hx : (c.states c.current).cursorX ≤ 80)
    (hy : (c.states c.current).cursorY + ((c.states c.current).cursorX + 1) / 81 < 25) :
    ∃ c', screenPutchar b c = .ok () c' ∧
      Put c b (((c.states c.current).cursorX + 1) % 81)
        ((c.states c.current).cursorY + ((c.states c.current).cursorX + 1) / 81) c' := by
  rcases Nat.lt_or_ge (c.states c.current).cursorX 80 with hlt | hge
  · rw [Nat.div_eq_of_lt (by omega), Nat.mod_eq_of_lt (by omega), Nat.add_zero] at *
    exact screenPutchar_inside hb hlt hy
  · have hcol : (c.states c.current).cursorX = 80 := by omega
    rw [hcol] at hy ⊢
    exact screenPutchar_overflow hb hcol hy

/-! ## A text -/

/-- The character that cell `j`, counted from the start of the cursor's row, has of the first
`n` printed from column `x` on. -/
def landed (x n j : Nat) : Option Nat :=
  if j < x ∨ x + n < j + j / 80 then none
  else if j + j / 80 < x + n then some (j + j / 80 - x)
  else if j % 80 = 0 ∧ 0 < j ∧ 0 < n then some (n - 1)
  else none

theorem landed_succ {x n : Nat} (hx : x < 80) (j : Nat) :
    landed x (n + 1) j = if j + (x + n) / 81 = x + n then some n else landed x n j := by
  have hj := Nat.div_add_mod j 80
  have hj' := Nat.mod_lt j (show 0 < 80 by omega)
  have hm := Nat.div_add_mod (x + n) 81
  have hm' := Nat.mod_lt (x + n) (show 0 < 81 by omega)
  unfold landed
  split_ifs <;> first | rfl | (refine congrArg some ?_; omega) | (exfalso; omega)

theorem landed_outside {x n j : Nat} (h : j < x ∨ x + n ≤ j) : landed x n j = none := by
  unfold landed
  split_ifs
  · rfl
  · omega
  · omega
  · rfl

theorem landed_char {x n i : Nat} (hi : i < n) : landed x n (x + i) =
    if i + (x + i) / 80 < n then some (i + (x + i) / 80)
    else if i + (x + i) / 80 = n ∧ (x + i) % 80 = 0 then some (i + (x + i) / 80 - 1)
    else none := by
  unfold landed
  split_ifs <;> first | rfl | (refine congrArg some ?_; omega) | (exfalso; omega)

/-- The screen after the first `n` characters `f 0, f 1, …`. -/
structure Printed (c : Console) (f : Nat → BitVec 8) (n : Nat) (d : Console) : Prop where
  column : (d.states d.current).cursorX = ((c.states c.current).cursorX + n) % 81
  row : (d.states d.current).cursorY =
    (c.states c.current).cursorY + ((c.states c.current).cursorX + n) / 81
  color : (d.states d.current).color = (c.states c.current).color
  above : ∀ j, j < 80 * (c.states c.current).cursorY → d.vga.cell j = c.vga.cell j
  cells : ∀ j, d.vga.cell (80 * (c.states c.current).cursorY + j) =
    ((landed (c.states c.current).cursorX n j).map fun i => c.entry (f i)).getD
      (c.vga.cell (80 * (c.states c.current).cursorY + j))

section Text

variable {c : Console} (hx : (c.states c.current).cursorX < 80)
include hx

theorem Printed.start (f : Nat → BitVec 8) : Printed c f 0 c where
  column := by omega
  row := by omega
  color := rfl
  above _ _ := rfl
  cells j := by
    rw [landed_outside (Nat.lt_or_ge j _)]
    rfl

theorem Printed.step {f : Nat → BitVec 8} {n : Nat} {d : Console} (h : Printed c f n d)
    (hf : f n ≠ newline ∧ f n ≠ backspace)
    (hfit : (c.states c.current).cursorY + ((c.states c.current).cursorX + n + 1) / 81 < 25) :
    ∃ d', screenPutchar (f n) d = .ok () d' ∧ Printed c f (n + 1) d' := by
  obtain ⟨x, hxs⟩ : ∃ x, x = (c.states c.current).cursorX := ⟨_, rfl⟩
  obtain ⟨y, hys⟩ : ∃ y, y = (c.states c.current).cursorY := ⟨_, rfl⟩
  have hcol := h.column
  have hrow := h.row
  rw [← hxs] at hx hcol hrow hfit
  rw [← hys] at hrow hfit
  obtain ⟨d', hr, hcol', hrow', hcolor', hcells'⟩ := screenPutchar_cells (c := d) hf
    (by rw [hcol]; omega) (by rw [hcol, hrow]; omega)
  have horigin : d.origin = 80 * y + (x + n - (x + n) / 81) := by
    unfold Console.origin
    rw [hcol, hrow]
    omega
  have hentry : d.entry (f n) = c.entry (f n) := by
    unfold Console.entry
    rw [h.color]
  rw [horigin, hentry] at hcells'
  refine ⟨d', hr, ?_, ?_, hcolor'.trans h.color, fun j hj => ?_, fun j => ?_⟩
  · rw [hcol', hcol, ← hxs]
    omega
  · rw [hrow', hcol, hrow, ← hxs, ← hys]
    omega
  · rw [← hys] at hj
    rw [hcells' j, if_neg (by omega), h.above j (by rw [← hys]; exact hj)]
  · have hold := h.cells j
    rw [← hxs, ← hys] at hold ⊢
    rw [hcells', landed_succ hx]
    by_cases hj : j + (x + n) / 81 = x + n
    · rw [if_pos (by omega), if_pos hj]
      rfl
    · rw [if_neg (by omega), if_neg hj, hold]

/-- **A text without control characters** that ends above the last cell of the screen. -/
theorem screenPutstring_printed {text : List (BitVec 8)}
    (hb : ∀ b ∈ text, b ≠ newline ∧ b ≠ backspace) (hfit : c.origin + text.length < 2000) :
    ∃ d, screenPutstring text c = .ok () d ∧
      Printed c (fun i => text.getD i 0) text.length d := by
  have htext : text = (List.range' 0 text.length).map fun i => text.getD i 0 := by
    apply List.ext_getElem
    · simp
    · intro i h1 h2
      simp [h1]
  have hloop := forUp_total (f := fun i => screenPutchar (text.getD i 0))
    (fun i d => Printed c (fun i => text.getD i 0) i d) (l := 0) (n := text.length) (s := c)
    (Printed.start hx _) ?_
  · obtain ⟨d, hr, hd⟩ := hloop
    rw [forUp_puts, ← htext] at hr
    rw [Nat.zero_add] at hd
    exact ⟨d, hr, hd⟩
  · intro i d _ hi hd
    rw [Nat.zero_add] at hi
    refine hd.step hx ?_ ?_
    · show text.getD i 0 ≠ _ ∧ text.getD i 0 ≠ _
      rw [List.getD_eq_getElem _ _ hi]
      exact hb _ (List.getElem_mem hi)
    · unfold Console.origin at hfit
      omega

/-! ## Where it is right -/

omit hx in
theorem entry_inj {a b : BitVec 8} (h : c.entry a = c.entry b) : a = b := by
  have hlow : ∀ e : BitVec 8, (c.entry e).extractLsb' 0 8 = e := by
    intro e
    unfold Console.entry vgaEntry
    ext k hk
    simp [hk, show k < 16 by omega]
  rw [← hlow a, h, hlow b]

omit hx in
theorem Printed.char {text : List (BitVec 8)} {d : Console}
    (h : Printed c (fun i => text.getD i 0) text.length d) {i : Nat} {b : BitVec 8}
    (hi : text[i]? = some b) :
    d.vga.cell (c.origin + i) = c.entry b ↔
      let j := (c.states c.current).cursorX + i
      let r := j / 80
      if i + r < text.length then text[i + r]? = some b
      else if i + r = text.length ∧ j % 80 = 0 then text[i + r - 1]? = some b
      else c.vga.cell (c.origin + i) = c.entry b := by
  have hlt : i < text.length := (List.getElem?_eq_some_iff.mp hi).1
  have hget : ∀ k, k < text.length → (c.entry (text.getD k 0) = c.entry b ↔ text[k]? = some b) := by
    intro k hk
    rw [List.getD_eq_getElem _ _ hk, List.getElem?_eq_getElem hk, Option.some_inj]
    exact ⟨entry_inj, congrArg _⟩
  unfold Console.origin
  dsimp only
  rw [Nat.add_assoc, h.cells, landed_char hlt]
  split_ifs with h1 h2
  · exact hget _ h1
  · exact hget _ (by omega)
  · exact Iff.rfl

omit hx in
theorem Printed.other {f : Nat → BitVec 8} {n : Nat} {d : Console} (h : Printed c f n d) {j : Nat}
    (hj : j < c.origin ∨ c.origin + n ≤ j) : d.vga.cell j = c.vga.cell j := by
  unfold Console.origin at hj
  rcases Nat.lt_or_ge j (80 * (c.states c.current).cursorY) with hlow | hhigh
  · exact h.above j hlow
  · obtain ⟨k, rfl⟩ := Nat.exists_eq_add_of_le hhigh
    rw [h.cells, landed_outside (by omega)]
    rfl

/-- The text is in place exactly when it repeats itself and the screen. -/
theorem inPlace_iff {text : List (BitVec 8)} (hb : ∀ b ∈ text, b ≠ newline ∧ b ≠ backspace)
    (hfit : c.origin + text.length < 2000) : InPlace c text ↔ Repeats c text := by
  obtain ⟨d, hr, hd⟩ := screenPutstring_printed hx hb hfit
  constructor
  · rintro ⟨d', hr', hall, -⟩ i b hi
    rw [hr] at hr'
    injection hr' with _ he
    subst he
    exact (hd.char hi).mp (hall i b hi)
  · intro hall
    exact ⟨d, hr, fun i b hi => (hd.char hi).mpr (hall i b hi), fun j hj => hd.other hj⟩

end Text

/-- A text that ends at the latest at the start of the next row repeats nothing. -/
theorem repeats_short {c : Console} {text : List (BitVec 8)}
    (h : (c.states c.current).cursorX + text.length ≤ 81) : Repeats c text := by
  intro i b hi
  have hlt : i < text.length := (List.getElem?_eq_some_iff.mp hi).1
  dsimp only
  rcases Nat.lt_or_ge ((c.states c.current).cursorX + i) 80 with hrow | hrow
  · rw [Nat.div_eq_of_lt hrow, Nat.add_zero, if_pos hlt]
    exact hi
  · have hlast : (c.states c.current).cursorX + i = 80 := by omega
    rw [hlast, if_neg (by omega), if_pos (by omega)]
    exact hi

/-- A longer one needs its last character on the screen already. -/
theorem repeats_long {c : Console} {text : List (BitVec 8)} (hx : (c.states c.current).cursorX < 80)
    (h : 81 < (c.states c.current).cursorX + text.length) :
    ∃ v, ¬ Repeats { c with vga := v } text := by
  have hlast : text.length - 1 < text.length := by omega
  obtain ⟨b, hb⟩ : ∃ b, text[text.length - 1]? = some b := ⟨_, List.getElem?_eq_getElem hlast⟩
  refine ⟨c.vga.set (c.origin + (text.length - 1)) (c.entry (b + 1)), fun hrep => ?_⟩
  have hcell := hrep _ b hb
  dsimp only at hcell
  rw [if_neg (by omega), if_neg (by omega)] at hcell
  have hcell : (c.vga.set (c.origin + (text.length - 1)) (c.entry (b + 1))).cell
      (c.origin + (text.length - 1)) = c.entry b := hcell
  rw [Vga.cell_set, if_pos rfl] at hcell
  have hsucc : b + 1 = b := entry_inj hcell
  have hne : ∀ b : BitVec 8, b + 1 ≠ b := by
    intro b hb
    simp at hb
  exact hne b hsucc

/-- **When no character is lost at the end of a row.** From a cursor on the screen, a text
without control characters that ends above the last cell is put in place exactly when it
ends by the first cell of the next row or repeats what it loses; over all contents of text
memory, exactly when it ends by that cell. -/
theorem putstring_in_place {c : Console} {text : List (BitVec 8)}
    (hx : (c.states c.current).cursorX < 80) (hb : ∀ b ∈ text, b ≠ newline ∧ b ≠ backspace)
    (hfit : c.origin + text.length < 2000) :
    (InPlace c text ↔ (c.states c.current).cursorX + text.length ≤ 81 ∨ Repeats c text) ∧
    ((∀ v, InPlace { c with vga := v } text) ↔
      (c.states c.current).cursorX + text.length ≤ 81) := by
  refine ⟨?_, fun hall => ?_, fun h v => ?_⟩
  · rw [inPlace_iff hx hb hfit]
    exact ⟨.inr, fun h => h.elim repeats_short id⟩
  · by_contra hlong
    obtain ⟨v, hv⟩ := repeats_long hx (Nat.lt_of_not_le hlong)
    exact hv ((inPlace_iff (c := { c with vga := v }) hx hb hfit).mp (hall v))
  · exact (inPlace_iff (c := { c with vga := v }) hx hb hfit).mpr (repeats_short h)

/-- A blank screen with the cursor at the end of its first row. -/
def rowEnd : Console :=
  ⟨fun _ => ⟨fun _ => 0, 79, 0, 0, 0, 0, 0, 7⟩, 0, ⟨fun _ => 0, []⟩, 79⟩

/-- Two characters from there. -/
theorem putstring_in_place_two : InPlace rowEnd (bytesOf "ab") :=
  (putstring_in_place (c := rowEnd) (by decide) (by decide) (by decide)).1.mpr (.inl (by decide))

/-- Of three characters the second is overwritten. -/
theorem putstring_loses_char : (rowEnd.states rowEnd.current).cursorX < 80 ∧
    rowEnd.origin + (bytesOf "abc").length < 2000 ∧ ¬ InPlace rowEnd (bytesOf "abc") := by
  have hfit : rowEnd.origin + (bytesOf "abc").length < 2000 := by decide
  refine ⟨by decide, hfit, fun h => ?_⟩
  have hrep := (inPlace_iff (c := rowEnd) (by decide) (by decide) hfit).mp h
  exact absurd (hrep 1 98 rfl) (by decide)

end Kfs
