import Kfs.CommandRun
import Kfs.Lib.Terminal
import Kfs.ScreenWrap
import Kfs.Typing

/-!
# The screen as a sheet

While no line is longer than a row, the screen is a window on what has been printed: its
last 25 lines, with the cursor behind the last character (`Showing`). Every character
keeps that, in the last row too, where the screen scrolls.

The line that is being typed stands behind the prompt, and every edit redraws it in
its row (`Editing`). The row must hold the line and the cell behind it.
-/

namespace Kfs

open Kfs.Lib

/-- What an output does to the sheet. -/
def Out.stroke : Out → Stroke (BitVec 8)
  | .char b => if b = newline then .newline else if b = backspace then .back else .char b
  | .clear => .clear

/-- What the printing of a text does to it. -/
def strokes (text : List (BitVec 8)) : List (Stroke (BitVec 8)) :=
  text.map fun b => (Out.char b).stroke

/-- The character in column `x` of row `r`. -/
def Console.charAt (c : Console) (r x : Nat) : BitVec 8 := (c.vga.cell (80 * r + x)).setWidth 8

theorem vgaEntry_char (b color : BitVec 8) : (vgaEntry b color).setWidth 8 = b := by
  unfold vgaEntry
  ext k hk
  simp

/-- The screen shows the last lines of the sheet. -/
def OnDisplay (s : Sheet (BitVec 8)) (c : Console) : Prop :=
  ∀ r x, r < 25 → x < 80 → c.charAt r x = (s.shown 25 r).getD x space

/-- And the cursor is behind the last character. -/
structure Showing (s : Sheet (BitVec 8)) (c : Console) : Prop where
  column : (c.states c.current).cursorX = s.line.length
  row : (c.states c.current).cursorY = s.row 25
  cells : OnDisplay s c

theorem Console.charAt_congr {c d : Console} {r x : Nat}
    (h : d.vga.cell (80 * r + x) = c.vga.cell (80 * r + x)) :
    d.charAt r x = c.charAt r x := by
  unfold Console.charAt
  rw [h]

/-! ## Printing -/

section Print

variable {s : Sheet (BitVec 8)} {c : Console}

/-- **A character** goes behind the last one. -/
theorem Showing.char (h : Showing s c) {b : BitVec 8} (hb : b ≠ newline ∧ b ≠ backspace)
    (hfit : s.line.length < 80) : ∃ c', screenPutchar b c = .ok () c' ∧
    Showing (s.put (.char b)) c' := by
  have hcol := h.column
  have hrow := h.row
  have hlt := s.row_lt (h := 25) (by decide)
  obtain ⟨c', hr, hx, hy, -, hcells⟩ := screenPutchar_inside (c := c) hb (by omega) (by omega)
  refine ⟨c', hr, ?_, ?_, fun r x hr hx => ?_⟩
  · show _ = (s.line ++ [b]).length
    rw [hx, hcol, List.length_append]
    rfl
  · rw [hy, hrow]
    rfl
  · show (c'.vga.cell (80 * r + x)).setWidth 8 = ((s.write (s.line ++ [b])).shown 25 r).getD x space
    have horigin : c.origin = 80 * s.row 25 + s.line.length := by
      unfold Console.origin
      rw [hrow, hcol]
    have hold := h.cells r x hr hx
    unfold Console.charAt at hold
    rw [hcells, horigin, s.shown_write (by decide)]
    by_cases hr' : r = s.row 25
    · rw [if_pos hr']
      rw [hr', s.shown_row (by decide), ← hr'] at hold
      rw [List.getD_eq_getElem?_getD] at hold ⊢
      rcases Nat.lt_trichotomy x s.line.length with hlt | heq | hgt
      · rw [if_neg (by omega), hold, List.getElem?_append_left hlt]
      · rw [if_pos (by omega), heq, List.getElem?_append_right (Nat.le_refl _), Nat.sub_self]
        exact vgaEntry_char b _
      · rw [if_neg (by omega), hold, List.getElem?_eq_none (by omega),
          List.getElem?_eq_none (by rw [List.length_append]; exact hgt)]
    · rw [if_neg (by omega), if_neg hr', hold]

theorem screenPutchar_newline (c : Console) : screenPutchar newline c = (do
    if (← cur).cursorY ≥ screenHeight then
      screenScroll
    updateHardwareCursor : C Unit)
      (c.setCur fun s => { s with cursorX := 0, cursorY := s.cursorY + 1 }) := by
  obtain ⟨d, hd⟩ : ∃ d, d = c.setCur fun s => { s with cursorX := 0, cursorY := s.cursorY + 1 } :=
    ⟨_, rfl⟩
  have hx : (d.states d.current).cursorX = 0 := by
    rw [hd, Console.setCur_current, Console.setCur_self]
  unfold screenPutchar
  rw [cur_bind, if_pos rfl, bind_of_ok (setCur_apply _ c), ← hd]
  dsimp only
  rw [cur_bind, hx, if_neg (by decide)]

/-- **A line feed**, wherever the cursor is in its row: above the last row nothing moves, in the
last row all rows do. -/
theorem OnDisplay.newline (h : OnDisplay s c) (hrow : (c.states c.current).cursorY = s.row 25) :
    ∃ c', screenPutchar newline c = .ok () c' ∧ Showing (s.put .newline) c' := by
  have hlt := s.row_lt (h := 25) (by decide)
  obtain ⟨d, hd⟩ : ∃ d, d = c.setCur fun s => { s with cursorX := 0, cursorY := s.cursorY + 1 } :=
    ⟨_, rfl⟩
  have hself :
      d.states d.current = { c.states c.current with cursorX := 0, cursorY := s.row 25 + 1 } := by
    rw [hd, Console.setCur_current, Console.setCur_self, hrow]
  rw [screenPutchar_newline, ← hd, cur_bind, hself]
  dsimp only
  by_cases hend : s.row 25 + 1 < 25
  · obtain ⟨hrow', hshown⟩ : _ ∧ ∀ r, _ := ⟨(s.shown_newline (by decide) (r := 0) hend).1,
      fun r => (s.shown_newline (by decide) (r := r) hend).2⟩
    obtain ⟨c', hr, hp⟩ := updateHardwareCursor_paints d
    rw [if_neg (show ¬ s.row 25 + 1 ≥ screenHeight from Nat.not_le.mpr hend)]
    refine ⟨c', hr, ?_, ?_, fun r x hr hx => ?_⟩
    · rw [hp.cur, hself]
      rfl
    · rw [hp.cur, hself, hrow']
    · rw [hshown, ← h r x hr hx]
      refine Console.charAt_congr ((hp.cells _).trans ?_)
      rw [hd]
      rfl
  · have hlast : s.row 25 + 1 = 25 := by omega
    obtain ⟨hrow', hshown⟩ : _ ∧ ∀ r, _ := ⟨(s.shown_scroll (by decide) (r := 0) hlast).1,
      fun r => (s.shown_scroll (by decide) (r := r) hlast).2⟩
    obtain ⟨e, hr₁, hk, hst, hup, hblank⟩ := screenScroll_cells d
    obtain ⟨c', hr, hp⟩ := updateHardwareCursor_paints e
    have hself' : e.states e.current = { c.states c.current with cursorX := 0, cursorY := 24 } := by
      rw [hk, hst, Console.setCur_self, hself]
    rw [if_pos (show s.row 25 + 1 ≥ screenHeight from Nat.not_lt.mp hend), bind_of_ok hr₁]
    refine ⟨c', hr, ?_, ?_, fun r x hr hx => ?_⟩
    · rw [hp.cur, hself']
      rfl
    · rw [hp.cur, hself', hrow']
      show 24 = _
      omega
    · rw [hshown]
      have hcell : c'.charAt r x = e.charAt r x := Console.charAt_congr (hp.cells _)
      rw [hcell]
      by_cases hr24 : r + 1 < 25
      · rw [if_pos hr24, ← h (r + 1) x hr24 hx]
        unfold Console.charAt
        rw [hup _ (by omega), show 80 * r + x + 80 = 80 * (r + 1) + x by omega, hd]
        rfl
      · rw [if_neg hr24]
        unfold Console.charAt
        rw [hblank _ (by omega) (by omega)]
        exact vgaEntry_char _ _

theorem screenPutchar_backspace {c : Console} (hx : 0 < (c.states c.current).cursorX)
    (hx' : (c.states c.current).cursorX ≤ 80) (hy : (c.states c.current).cursorY < 25) :
    ∃ c', screenPutchar backspace c = .ok () c' ∧
      c'.states c'.current =
        { c.states c.current with cursorX := (c.states c.current).cursorX - 1 } ∧
      ∀ j, c'.vga.cell j = if j = 80 * (c.states c.current).cursorY +
        ((c.states c.current).cursorX - 1)
        then vgaEntry space (c.states c.current).color else c.vga.cell j := by
  obtain ⟨s, hs⟩ : ∃ s, s = c.states c.current := ⟨_, rfl⟩
  rw [← hs] at hx hx' hy ⊢
  obtain ⟨d, hd⟩ : ∃ d : Console, d = c.setCur fun s => { s with cursorX := s.cursorX - 1 } :=
    ⟨_, rfl⟩
  have hself : d.states d.current = { s with cursorX := s.cursorX - 1 } := by
    rw [hd, hs, Console.setCur_current, Console.setCur_self]
  obtain ⟨e, hr₁, hp₁⟩ :=
    vgaWrite_paints (s.cursorY * screenWidth + (s.cursorX - 1)) (vgaEntry space s.color) d
  obtain ⟨c', hr, hp⟩ := updateHardwareCursor_paints e
  have hself' : e.states e.current = { s with cursorX := s.cursorX - 1 } := hp₁.cur.trans hself
  refine ⟨c', ?_, hp.cur.trans hself', fun j => ?_⟩
  · unfold screenPutchar
    rw [cur_bind, if_neg (by decide), if_pos rfl, ← hs, if_pos hx,
      bind_of_ok (setCur_apply _ c), ← hd,
      bind_of_ok hr₁]
    dsimp only
    rw [cur_bind, if_neg (by rw [hself']; show ¬ s.cursorX - 1 > 80; omega), cur_bind,
      if_neg (by rw [hself']; show ¬ s.cursorY ≥ 25; omega)]
    exact hr
  · rw [hp.cells, hp₁.cells, Nat.mul_comm, hd]
    rfl

theorem screenPutchar_backspace_start {c : Console} (hx : (c.states c.current).cursorX = 0)
    (hy : (c.states c.current).cursorY < 25) :
    ∃ c', screenPutchar backspace c = .ok () c' ∧ Paints c.vga.cell c c' := by
  obtain ⟨c', hr, hp⟩ := updateHardwareCursor_paints c
  refine ⟨c', ?_, hp⟩
  unfold screenPutchar
  rw [cur_bind, if_neg (by decide), if_pos rfl, if_neg (by omega)]
  dsimp only
  rw [cur_bind, if_neg (by rw [hx]; decide), cur_bind,
    if_neg (show ¬ (c.states c.current).cursorY ≥ screenHeight from Nat.not_le.mpr hy)]
  exact hr

/-- **A backspace** takes the last character of the line away. -/
theorem Showing.back (h : Showing s c) (hfit : s.line.length ≤ 80) :
    ∃ c', screenPutchar backspace c = .ok () c' ∧ Showing (s.put .back) c' := by
  have hcol := h.column
  have hrow := h.row
  have hlt := s.row_lt (h := 25) (by decide)
  have hput : ∀ r, (s.put .back).shown 25 r = if r = s.row 25 then s.line.dropLast
    else s.shown 25 r := by
    intro r
    rw [← s.shown_write (by decide) s.line.dropLast r, Sheet.shown_eq (by decide),
      Sheet.shown_eq (by decide)]
    rfl
  by_cases h0 : s.line.length = 0
  · have hnil : s.line = [] := List.length_eq_zero_iff.mp h0
    obtain ⟨c', hr, hp⟩ := screenPutchar_backspace_start (c := c) (by omega) (by omega)
    refine ⟨c', hr, ?_, ?_, fun r x hr hx => ?_⟩
    · rw [hp.cur, hcol]
      show _ = s.line.dropLast.length
      rw [hnil]
      rfl
    · rw [hp.cur, hrow]
      rfl
    · rw [Console.charAt_congr (hp.cells _), h.cells r x hr hx, hput]
      split
      · next hr' => rw [hr', s.shown_row (by decide), hnil]; rfl
      · rfl
  · obtain ⟨c', hr, hself, hcells⟩ := screenPutchar_backspace (c := c)
      (by omega) (by omega) (by omega)
    refine ⟨c', hr, ?_, ?_, fun r x hr hx => ?_⟩
    · rw [hself]
      show (c.states c.current).cursorX - 1 = s.line.dropLast.length
      rw [hcol, List.length_dropLast]
    · rw [hself]
      exact hrow
    · have hold := h.cells r x hr hx
      unfold Console.charAt at hold ⊢
      rw [hcells, hcol, hrow, hput]
      by_cases hr' : r = s.row 25
      · rw [if_pos hr']
        rw [hr', s.shown_row (by decide), ← hr'] at hold
        rw [List.getD_eq_getElem?_getD, List.getElem?_dropLast]
        rw [List.getD_eq_getElem?_getD] at hold
        rcases Nat.lt_trichotomy x (s.line.length - 1) with hlt | heq | hgt
        · rw [if_neg (by omega), if_pos hlt, hold]
        · rw [if_pos (by omega), if_neg (by omega)]
          exact vgaEntry_char _ _
        · rw [if_neg (by omega), if_neg (by omega), hold, List.getElem?_eq_none (by omega)]
      · rw [if_neg (by omega), if_neg hr', hold]

/-- **Clearing** the screen begins a new sheet, whatever it showed. -/
theorem screenClear_showing (s : Sheet (BitVec 8)) (c : Console) :
    ∃ c', screenClear c = .ok () c' ∧ Showing (s.put .clear) c' := by
  obtain ⟨d, hr₁, hp₁⟩ := forUp_paints (f := fun i => do vgaWrite i (vgaEntry space (← cur).color))
    (b := 0) (l := 0) (n := screenWidth * screenHeight) (c := c)
    (e := fun _ => vgaEntry space (c.states c.current).color) (fun i d _ _ hd => by
      rw [cur_bind, hd.cur, Nat.zero_add])
  obtain ⟨c', hr, hp⟩ :=
    updateHardwareCursor_paints (d.setCur fun s => { s with cursorX := 0, cursorY := 0 })
  have hself : c'.states c'.current = { c.states c.current with cursorX := 0, cursorY := 0 } := by
    rw [hp.cur, Console.setCur_current, Console.setCur_self, hp₁.cur]
  refine ⟨c', (bind_of_ok hr₁).trans ((bind_of_ok (setCur_apply _ _)).trans hr),
    ?_, ?_, fun r x hr hx => ?_⟩
  · rw [hself]
    rfl
  · rw [hself]
    rfl
  · have hblank : (s.put .clear).shown 25 r = [] := by
      rw [Sheet.shown_eq (by decide)]
      show (if r < min 0 24 then _ else if r = min 0 24 then [] else []) = _
      rw [Nat.zero_min, if_neg (Nat.not_lt_zero r), ite_self]
    unfold Console.charAt
    rw [hp.cells, hblank]
    show (d.vga.cell _).setWidth 8 = _
    rw [hp₁.cells, if_pos ⟨Nat.zero_le _, by simp only [screenWidth, screenHeight]; omega⟩]
    exact vgaEntry_char _ _

/-- **One output.** -/
theorem Showing.out (h : Showing s c) (o : Out) (hfit : (s.put o.stroke).widest ≤ 80) :
    ∃ c', o.run c = .ok () c' ∧ Showing (s.put o.stroke) c' := by
  have hline : s.line.length ≤ 80 := s.line_le.trans ((s.widest_put o.stroke).trans hfit)
  cases o with
  | clear => exact screenClear_showing s c
  | char b =>
    show ∃ c', screenPutchar b c = .ok () c' ∧ _
    unfold Out.stroke at hfit ⊢
    dsimp only at hfit ⊢
    by_cases hn : b = Kfs.newline
    · rw [if_pos hn, hn]
      exact h.cells.newline h.row
    by_cases hb : b = backspace
    · rw [if_neg hn, if_pos hb, hb]
      exact h.back hline
    · rw [if_neg hn, if_neg hb] at hfit ⊢
      have hlen := (s.put (.char b)).line_le
      rw [show (s.put (.char b)).line = s.line ++ [b] from rfl, List.length_append] at hlen
      exact h.char ⟨hn, hb⟩ (by simp only [List.length_cons, List.length_nil] at hlen; omega)

/-- **Any output** whose lines fit into a row. -/
theorem Showing.outs : ∀ (out : List Out) {s : Sheet (BitVec 8)} {c : Console}, Showing s c →
    (s.puts (out.map Out.stroke)).widest ≤ 80 →
    ∃ c', runOut out c = .ok () c' ∧ Showing (s.puts (out.map Out.stroke)) c'
  | [], _, c, h, _ => ⟨c, rfl, h⟩
  | o :: out, s, _, h, hfit => by
    obtain ⟨c₁, hr₁, h₁⟩ := h.out o (Nat.le_trans (Sheet.widest_puts _ _) hfit)
    obtain ⟨c', hr, h'⟩ := Showing.outs out h₁ hfit
    exact ⟨c', (bind_of_ok hr₁).trans hr, h'⟩

end Print

/-! ## Typing -/

section Draw

variable {fit : Nat → C Nat} {c : Console}

/-- **What a redraw paints**: the characters from the cursor on, and a blank behind them. -/
theorem redraw_paints (hfit : Still fit)
    (hk : (c.states c.current).inputCursor ≤ (c.states c.current).inputLength)
    (hroom : linePos (c.states c.current) (c.states c.current).inputLength < 2000) :
    ∃ c', redraw fit c = .ok () c' ∧ Paints (fun j =>
      if j = linePos (c.states c.current) (c.states c.current).inputLength then
        vgaEntry space (c.states c.current).color
      else if linePos (c.states c.current) (c.states c.current).inputCursor ≤ j ∧
          j < linePos (c.states c.current) (c.states c.current).inputLength then
        vgaEntry ((c.states c.current).buffer (j - linePos (c.states c.current) 0))
          (c.states c.current).color
      else c.vga.cell j) c c' := by
  obtain ⟨L, hL⟩ : ∃ L, L = (c.states c.current).inputLength := ⟨_, rfl⟩
  obtain ⟨k, hkc⟩ : ∃ k, k = (c.states c.current).inputCursor := ⟨_, rfl⟩
  rw [← hL] at hk hroom ⊢
  rw [← hkc] at hk ⊢
  have hpos : ∀ i, linePos (c.states c.current) 0 + i = linePos (c.states c.current) i := by
    intro i
    unfold linePos
    omega
  obtain ⟨c₁, hr₁, hp₁⟩ := forUp_paints (f := drawTyped fit) (b := linePos (c.states c.current) 0)
    (l := k)
    (n := L - k) (c := c)
    (e := fun i => vgaEntry ((c.states c.current).buffer i) (c.states c.current).color) (by
      intro i d h1 h2 hd
      have hlt : linePos (c.states c.current) i < 2000 := by
        unfold linePos at hroom ⊢
        omega
      have hi : i < screenSize := by
        unfold linePos at hlt
        simp only [screenSize, screenWidth, screenHeight]
        omega
      rw [drawTyped_apply hfit hi (by rw [hd.cur]; exact hlt), hd.cur, hpos])
  obtain ⟨c₂, hr₂, hp₂⟩ := vgaWrite_paints (linePos (c.states c.current) L)
    (vgaEntry space (c.states c.current).color) c₁
  refine ⟨c₂, ?_, (hp₁.trans hp₂).congr fun j => ?_⟩
  · unfold redraw
    rw [cur_bind, ← hL, ← hkc, bind_of_ok hr₁,
      eraseEnd_apply hfit (by rw [hp₁.cur, ← hL]; exact hroom),
      hp₁.cur, ← hL]
    exact hr₂
  · rw [hp₁.cells, hpos, hpos, Nat.add_sub_cancel' hk]

theorem placeCursor_row (hfit : Still fit) (hy : (c.states c.current).inputStartY < 25)
    (hx : (c.states c.current).inputStartX + (c.states c.current).inputCursor < 80) :
    ∃ c', placeCursor fit c = .ok () c' ∧
      c'.states c'.current = { c.states c.current with
        cursorX := (c.states c.current).inputStartX + (c.states c.current).inputCursor
        cursorY := (c.states c.current).inputStartY } ∧
      ∀ j, c'.vga.cell j = c.vga.cell j := by
  obtain ⟨x, y, hw, hx', hxy⟩ := wrapLine_pos (c.states c.current) (c.states c.current).inputCursor
  unfold linePos at hxy
  have hcol : x = (c.states c.current).inputStartX + (c.states c.current).inputCursor := by omega
  have hrow : y = (c.states c.current).inputStartY := by omega
  obtain ⟨c', hr, hp⟩ :=
    updateHardwareCursor_paints (c.setCur fun s => { s with cursorX := x, cursorY := y })
  refine ⟨c', ?_, ?_, hp.cells⟩
  · unfold placeCursor
    rw [cur_bind, hw]
    dsimp only
    rw [bind_of_ok (hfit y c (by omega))]
    exact hr
  · rw [hp.cur, Console.setCur_current, Console.setCur_self, hcol, hrow]

end Draw

/-- The sheet `s` ends with the prompt, and the line of `e` stands behind it. -/
structure Editing (s : Sheet (BitVec 8)) (e : Editor) (c : Console) : Prop where
  startX : (c.states c.current).inputStartX = s.line.length
  startY : (c.states c.current).inputStartY = s.row 25
  column : (c.states c.current).cursorX = s.line.length + e.cursor
  row : (c.states c.current).cursorY = s.row 25
  cells : OnDisplay (s.write (s.line ++ e.text)) c

section Edit

variable {s : Sheet (BitVec 8)} {e : Editor} {c : Console} {fit : Nat → C Nat}

/-- **A redraw shows the new line**: before its cursor `k` the two agree, behind the old line all
is blank. -/
theorem Editing.redraws (h : Editing s e c) (hfit : Still fit)
    {text : List (BitVec 8)} {k : Nat} {buf : Mem}
    (hk : k ≤ text.length) (hbuf : ∀ i, i < text.length → text[i]? = some (buf i))
    (hsame : ∀ i, i < k → text[i]? = e.text[i]?) (hshort : e.text.length ≤ text.length + 1)
    (hroom : s.line.length + text.length < 80) :
    ∃ c', redraw fit (c.setLine text.length k buf) = .ok () c' ∧
      c'.states c'.current = { c.states c.current with
        buffer := buf, inputLength := text.length, inputCursor := k } ∧
      OnDisplay (s.write (s.line ++ text)) c' := by
  have hlt := s.row_lt (h := 25) (by decide)
  obtain ⟨d, hd⟩ : ∃ d, d = c.setLine text.length k buf := ⟨_, rfl⟩
  have hcur : d.states d.current = { c.states c.current with
      buffer := buf
      inputLength := text.length
      inputCursor := k } := by
    rw [hd]
    exact c.setLine_cur _ _ _
  have hpos : ∀ i, linePos (d.states d.current) i = 80 * s.row 25 + s.line.length + i := by
    intro i
    unfold linePos
    rw [hcur, ← h.startX, ← h.startY]
  obtain ⟨c', hr, hp⟩ :=
    redraw_paints (c := d) hfit (by rw [hcur]; exact hk) (by rw [hpos, hcur]; dsimp only; omega)
  refine ⟨c', by rw [← hd]; exact hr, hp.cur.trans hcur, fun r x hr hx => ?_⟩
  have hold := h.cells r x hr hx
  unfold Console.charAt at hold ⊢
  rw [hp.cells, hpos, hpos, hpos, hcur]
  dsimp only
  rw [s.shown_write (by decide)] at hold ⊢
  have hvga : d.vga = c.vga := by
    rw [hd]
    rfl
  rw [hvga]
  by_cases hr' : r = s.row 25
  swap
  · rw [if_neg (by omega), if_neg (by omega), if_neg hr', hold, if_neg hr']
  rw [if_pos hr'] at hold ⊢
  rw [List.getD_eq_getElem?_getD, List.getElem?_append] at hold ⊢
  -- the prompt, the line up to the cursor, the rest of the line, the cell behind it, and the rest
  by_cases hprompt : x < s.line.length
  · rw [if_neg (by omega), if_neg (by omega), hold, if_pos hprompt, if_pos hprompt]
  rw [if_neg hprompt] at hold ⊢
  by_cases hbefore : x - s.line.length < k
  · rw [if_neg (by omega), if_neg (by omega), hold, hsame _ hbefore]
  by_cases hline : x - s.line.length < text.length
  · rw [if_neg (by omega), if_pos (by omega), vgaEntry_char, hbuf _ hline,
      show 80 * r + x - (80 * s.row 25 + s.line.length + 0) = x - s.line.length by omega]
    rfl
  rw [List.getElem?_eq_none (by omega)]
  by_cases hend : x - s.line.length = text.length
  · rw [if_pos (by omega), vgaEntry_char]
    rfl
  · rw [if_neg (by omega), if_neg (by omega), hold, List.getElem?_eq_none (by omega)]

theorem Editing.placed {d : Console} (e' : Editor) (h : Editing s e c)
    (hd : OnDisplay (s.write (s.line ++ e'.text)) d) (hfit : Still fit)
    (hcur : ∃ buf L, d.states d.current =
      { c.states c.current with buffer := buf, inputLength := L, inputCursor := e'.cursor })
    (hroom : s.line.length + e'.cursor < 80) : ∃ c', placeCursor fit d = .ok () c' ∧
      Editing s e' c' := by
  have hlt := s.row_lt (h := 25) (by decide)
  obtain ⟨buf, L, hcur⟩ := hcur
  have hx : (d.states d.current).inputStartX = s.line.length := by
    rw [hcur]
    exact h.startX
  have hy : (d.states d.current).inputStartY = s.row 25 := by
    rw [hcur]
    exact h.startY
  have hk : (d.states d.current).inputCursor = e'.cursor := by rw [hcur]
  obtain ⟨c', hr, hself, hcells⟩ :=
    placeCursor_row (c := d) hfit (by rw [hy]; exact hlt) (by rw [hx, hk]; exact hroom)
  rw [hx, hy, hk] at hself
  refine ⟨c', hr, ?_, ?_, ?_, ?_, fun r x hr hx => ?_⟩
  · rw [hself]
    exact hx
  · rw [hself]
    exact hy
  · rw [hself]
  · rw [hself]
  · rw [Console.charAt_congr (hcells _)]
    exact hd r x hr hx

/-- **An insertion** shows the longer line. -/
theorem Editing.insert (h : Editing s e c) (hrep : Represents (c.states c.current) e)
    (hok : e.Ok) {b : BitVec 8} (hb : 32 ≤ b.toNat ∧ b.toNat ≤ 126) (hfull : e.text.length < 3999)
    (hroom : s.line.length + (e.text.length + 1) < 80) :
    ∃ c', inputInsertCharAtCursor b c = .ok () c' ∧
      Editing s ⟨e.text.insertIdx e.cursor b, e.cursor + 1, true⟩ c' := by
  have hlen := hrep.length
  have hcur := hrep.cursor
  have hle := hok.cursor
  obtain ⟨text, htext⟩ : ∃ text, text = e.text.insertIdx e.cursor b := ⟨_, rfl⟩
  have hlen' : text.length = e.text.length + 1 := by
    rw [htext]
    exact List.length_insertIdx_of_le_length hle b
  obtain ⟨buf, hbuf⟩ : ∃ buf, buf = inserted (c.states c.current).buffer e.text.length e.cursor b :=
    ⟨_, rfl⟩
  rw [← htext]
  have hrep' : Represents { c.states c.current with
      buffer := buf
      inputLength := e.text.length + 1
      inputCursor := e.cursor + 1 } ⟨text, e.cursor + 1, true⟩ := by
    rw [htext, hbuf]
    refine hrep.inserted hok ⟨?_, ?_, ?_⟩
    · rw [hlen]
    · rw [hcur]
    · rw [hlen, hcur]
  have hbytes : ∀ i, i < text.length → text[i]? = some (buf i) := fun i hi =>
    hrep'.byte (show i < e.text.length + 1 by omega)
  have hbefore : ∀ i, i < e.cursor → text[i]? = e.text[i]? := fun i hi => by
    rw [hbytes i (by omega), hrep.byte (by omega), hbuf, inserted_before hi hle]
  obtain ⟨c₁, hr₁, hcur₁, hcells₁⟩ :=
    h.redraws scrollInto_still (by omega) hbytes hbefore (by omega) (by omega)
  obtain ⟨c₂, hc₂⟩ : ∃ c₂, c₂ = c₁.setCur fun s => { s with inputCursor := s.inputCursor + 1 } :=
    ⟨_, rfl⟩
  have hcells₂ : OnDisplay (s.write (s.line ++ text)) c₂ := fun r x hr hx => by
    rw [hc₂]
    exact hcells₁ r x hr hx
  have hcur₂ : c₂.states c₂.current = { c.states c.current with
      buffer := buf
      inputLength := text.length
      inputCursor := e.cursor + 1 } := by
    rw [hc₂, Console.setCur_current, Console.setCur_self, hcur₁]
  obtain ⟨c', hr, h'⟩ := h.placed ⟨text, e.cursor + 1, true⟩ hcells₂ scrollInto_still ⟨_, _, hcur₂⟩
    (by dsimp only; omega)
  refine ⟨c', ?_, h'⟩
  rw [insert_eq ⟨hlen, hcur⟩ hle (by simp only [screenSize, screenWidth, screenHeight]; omega) hb]
  have hedit : (c.setCur fun s => { s with
      buffer := inserted s.buffer e.text.length e.cursor b
      inputLength := e.text.length + 1 }) = c.setLine text.length e.cursor buf :=
    Console.setCur_congr (by rw [hbuf, hlen', hcur])
  rw [hedit, bind_of_ok hr₁, bind_of_ok (setCur_apply _ _), ← hc₂]
  exact hr

/-- **A deletion** shows the shorter line. -/
theorem Editing.delete (h : Editing s e c) (hrep : Represents (c.states c.current) e) (hok : e.Ok)
    (hpos : 0 < e.cursor) (hroom : s.line.length + (e.text.length - 1) < 80) :
    ∃ c', inputDeleteCharAtCursor c = .ok () c' ∧
      Editing s ⟨e.text.eraseIdx (e.cursor - 1), e.cursor - 1, true⟩ c' := by
  have hlen := hrep.length
  have hcur := hrep.cursor
  have hle := hok.cursor
  have hmax := hok.length
  obtain ⟨text, htext⟩ : ∃ text, text = e.text.eraseIdx (e.cursor - 1) := ⟨_, rfl⟩
  have hlen' : text.length = e.text.length - 1 := by
    rw [htext]
    exact List.length_eraseIdx_of_lt (by omega)
  obtain ⟨buf, hbuf⟩ : ∃ buf, buf = deleted (c.states c.current).buffer e.text.length e.cursor :=
    ⟨_, rfl⟩
  rw [← htext]
  have hrep' : Represents { c.states c.current with
      buffer := buf
      inputLength := e.text.length - 1
      inputCursor := e.cursor - 1 } ⟨text, e.cursor - 1, true⟩ := by
    rw [htext, hbuf]
    refine hrep.deleted hok hpos ⟨?_, ?_, ?_⟩
    · rw [hlen]
    · rw [hcur]
    · rw [hlen, hcur]
  have hbytes : ∀ i, i < text.length → text[i]? = some (buf i) := fun i hi =>
    hrep'.byte (show i < e.text.length - 1 by omega)
  have hbefore : ∀ i, i < e.cursor - 1 → text[i]? = e.text[i]? := fun i hi => by
    rw [hbytes i (by omega), hrep.byte (by omega), hbuf, deleted_before hi hle]
  obtain ⟨c₁, hr₁, hcur₁, hcells₁⟩ :=
    h.redraws pure_still (by omega) hbytes hbefore (by omega) (by omega)
  obtain ⟨c', hr, h'⟩ := h.placed ⟨text, e.cursor - 1, true⟩ hcells₁ pure_still
    ⟨buf, text.length, hcur₁⟩
    (by dsimp only; omega)
  refine ⟨c', ?_, h'⟩
  rw [delete_eq ⟨hlen, hcur⟩ hle (by simp only [screenSize, screenWidth, screenHeight]; omega)
    (by omega)]
  have hedit : (c.setCur fun s => { s with
      buffer := deleted s.buffer e.text.length e.cursor
      inputLength := e.text.length - 1
      inputCursor := e.cursor - 1 }) = c.setLine text.length (e.cursor - 1) buf :=
    Console.setCur_congr (by rw [hbuf, hlen'])
  rw [hedit, bind_of_ok hr₁]
  exact hr

/-- **A move** shows the same line. -/
theorem Editing.move (h : Editing s e c) {k : Nat} (hroom : s.line.length + k < 80) :
    ∃ c', (do setCur fun s => { s with inputCursor := k }
              placeCursor pure : C Unit) c = .ok () c' ∧ Editing s { e with cursor := k } c' := by
  obtain ⟨c₁, hc₁⟩ : ∃ c₁, c₁ = c.setCur fun s => { s with inputCursor := k } := ⟨_, rfl⟩
  have hcells₁ : OnDisplay (s.write (s.line ++ e.text)) c₁ := fun r x hr hx => by
    rw [hc₁]
    exact h.cells r x hr hx
  have hcur₁ : c₁.states c₁.current = { c.states c.current with inputCursor := k } := by
    rw [hc₁, Console.setCur_current, Console.setCur_self]
  obtain ⟨c', hr, h'⟩ := h.placed { e with cursor := k } hcells₁ pure_still ⟨_, _, hcur₁⟩ hroom
  refine ⟨c', ?_, h'⟩
  rw [bind_of_ok (setCur_apply _ _), ← hc₁]
  exact hr

/-- **An edit** redraws its row and leaves the others alone. -/
theorem Editing.step (h : Editing s e c) (hrep : Represents (c.states c.current) e)
    (hok : e.Ok) (op : EditOp) (hroom : s.line.length + (e.step op).text.length < 80) :
    ∃ c', op.run c = .ok () c' ∧ Editing s (e.step op) c' := by
  have hle := hok.cursor
  obtain ⟨hr, hstep⟩ | ⟨b, rfl, hb, hfull, hstep⟩ | ⟨rfl, hpos, hstep⟩ | ⟨k, hk, hstep, hrun⟩ :=
    op.run_cases hrep
  · exact ⟨c, hr, by rw [hstep]; exact h⟩
  · rw [hstep] at hroom ⊢
    rw [List.length_insertIdx_of_le_length hle] at hroom
    exact h.insert hrep hok hb hfull hroom
  · rw [hstep] at hroom ⊢
    rw [List.length_eraseIdx_of_lt (by omega)] at hroom
    exact h.delete hrep hok hpos hroom
  · rw [hstep] at hroom ⊢
    rw [hrun]
    have := hk hle
    exact h.move (by dsimp only at hroom; omega)

end Edit

/-! ## Prompt and Enter -/

section Prompt

variable {s : Sheet (BitVec 8)} {c : Console}

theorem Showing.prints (h : Showing s c) (text : List (BitVec 8))
    (hfit : (s.puts (strokes text)).widest ≤ 80) :
    ∃ c', screenPutstring text c = .ok () c' ∧ Showing (s.puts (strokes text)) c' := by
  have hstrokes : (text.map Out.char).map Out.stroke = strokes text := List.map_map
  obtain ⟨c', hr, h'⟩ := h.outs (text.map .char) (by rw [hstrokes]; exact hfit)
  rw [runOut_chars] at hr
  exact ⟨c', hr, hstrokes ▸ h'⟩

/-- **The prompt** starts an empty line. -/
theorem Showing.prompt (h : Showing s c) (hfit : (s.puts (strokes (bytesOf "kfs> "))).widest ≤ 80) :
    ∃ c', shellPrintPrompt c = .ok () c' ∧
    Editing (s.puts (strokes (bytesOf "kfs> "))) Editor.empty c' := by
  obtain ⟨c₁, hr₁, h₁⟩ := h.prints (bytesOf "kfs> ") hfit
  obtain ⟨c', hc'⟩ : ∃ c', c' = c₁.setCur fun s => { s with
    inputStartX := s.cursorX
    inputStartY := s.cursorY
    inputLength := 0
    inputCursor := 0 } := ⟨_, rfl⟩
  have hself : c'.states c'.current = { c₁.states c₁.current with
      inputStartX := (c₁.states c₁.current).cursorX
      inputStartY := (c₁.states c₁.current).cursorY
      inputLength := 0
      inputCursor := 0 } := by
    rw [hc', Console.setCur_current, Console.setCur_self]
  refine ⟨c', ?_, ?_, ?_, ?_, ?_, fun r x hr hx => ?_⟩
  · unfold shellPrintPrompt
    rw [kprintf, bind_of_ok hr₁, hc']
    rfl
  · rw [hself]
    exact h₁.column
  · rw [hself]
    exact h₁.row
  · rw [hself]
    exact h₁.column
  · rw [hself]
    exact h₁.row
  · rw [show Editor.empty.text = [] from rfl, List.append_nil, Sheet.shown_write (by decide)]
    have hcell := h₁.cells r x hr hx
    rw [hc']
    split
    · next hr' =>
      rw [hr', Sheet.shown_row (by decide), ← hr'] at hcell
      exact hcell
    · exact hcell

theorem Editing.reset {e : Editor} (h : Editing s e c) :
    Editing s e (c.setCur fun s => { s with inputLength := 0, inputCursor := 0 }) := by
  refine ⟨?_, ?_, ?_, ?_, h.cells⟩ <;> rw [Console.setCur_current, Console.setCur_self]
  · exact h.startX
  · exact h.startY
  · exact h.column
  · exact h.row

theorem Editing.showing (h : Editing s Editor.empty c) : Showing s c where
  column := h.column
  row := h.row
  cells r x hr hx := by
    have hcell := h.cells r x hr hx
    rw [show Editor.empty.text = [] from rfl, List.append_nil, Sheet.shown_write (by decide)]
      at hcell
    split at hcell
    · next hr' => rwa [hr', Sheet.shown_row (by decide), ← hr']
    · exact hcell

/-- **Enter** ends the line, wherever its cursor is. -/
theorem Editing.enter {e : Editor} (h : Editing s e c) {d : Console}
    (hrow : (d.states d.current).cursorY = (c.states c.current).cursorY) (hvga : d.vga = c.vga) :
    ∃ c', screenPutchar newline d = .ok () c' ∧
    Showing ((s.write (s.line ++ e.text)).put .newline) c' := by
  refine OnDisplay.newline (c := d) (fun r x hr hx => ?_) (by rw [hrow, h.row]; rfl)
  unfold Console.charAt
  rw [hvga]
  exact h.cells r x hr hx

end Prompt

end Kfs
