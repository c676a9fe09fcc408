import Kfs.ScreenEdit

/-!
# The line on the screen

Character `i` of the line belongs at the position `linePos s i`, counted along
the rows from the top left. An edit redraws from its cursor on, and only the cell
after the line can fall off the screen: then everything moves up by one row, and
the start of the line with it. `Shown` is the invariant, and every key keeps
it while the line has room below its start column.
-/

namespace Kfs

open Kfs.Lib

/-! ## Positions -/

/-- Where character `i` of the line is drawn. -/
def linePos (s : ScreenState) (i : Nat) : Nat := 80 * s.inputStartY + s.inputStartX + i

theorem wrapRounds_pos : ∀ {n x y : Nat}, x < 80 * (n + 1) →
    (wrapRounds n x y).1 < 80 ∧
      80 * (wrapRounds n x y).2 + (wrapRounds n x y).1 = 80 * y + x
  | 0, x, y, h => ⟨by simpa [wrapRounds] using h, rfl⟩
  | n + 1, x, y, h => by
    unfold wrapRounds
    split
    · rename_i hx
      simp only [screenWidth] at hx ⊢
      have ih := wrapRounds_pos (n := n) (x := x - 80) (y := y + 1) (by omega)
      exact ⟨ih.1, by omega⟩
    · rename_i hx
      simp only [screenWidth] at hx
      exact ⟨by omega, rfl⟩

/-- A position keeps its distance from the top left when it wraps. -/
theorem wrapLine_pos (s : ScreenState) (i : Nat) :
    ∃ x y, wrapLine (s.inputStartX + i) s.inputStartY = (x, y) ∧ x < 80 ∧
      80 * y + x = linePos s i := by
  have h := wrapRounds_pos (n := s.inputStartX + i) (x := s.inputStartX + i) (y := s.inputStartY)
    (by omega)
  refine ⟨_, _, rfl, h.1, h.2.trans ?_⟩
  unfold linePos
  omega

/-! ## Cells -/

theorem Vga.cell_set (v : Vga) (i j : Nat) (e : BitVec 16) :
    (v.set i e).cell j = if j = i then e else v.cell j := by
  unfold Vga.cell Vga.set
  dsimp only
  by_cases hj : j = i
  · rw [if_pos hj, hj, storeByte_same, storeByte_other (by omega), storeByte_same]
    ext k hk
    simp only [BitVec.getElem_append, BitVec.getElem_extractLsb']
    split
    · simp [BitVec.getLsbD_eq_getElem hk]
    · rw [show 8 + (k - 8) = k by omega, BitVec.getLsbD_eq_getElem hk]
  · rw [if_neg hj, storeByte_other (by omega), storeByte_other (by omega),
      storeByte_other (by omega),
      storeByte_other (by omega)]

/-- Text memory changed, the screens did not; `cells` is what it holds. -/
structure Paints (cells : Nat → BitVec 16) (c c' : Console) : Prop where
  current : c'.current = c.current
  states : c'.states = c.states
  cells : ∀ j, c'.vga.cell j = cells j

theorem Paints.cur {cells : Nat → BitVec 16} {c c' : Console} (h : Paints cells c c') :
    c'.states c'.current = c.states c.current := by rw [h.states, h.current]

theorem vgaWrite_paints (i : Nat) (e : BitVec 16) (c : Console) :
    ∃ c', vgaWrite i e c = .ok () c' ∧
      Paints (fun j => if j = i then e else c.vga.cell j) c c' :=
  ⟨_, rfl, rfl, rfl, fun j => Vga.cell_set _ i j e⟩

theorem updateHardwareCursor_paints (c : Console) :
    ∃ c', updateHardwareCursor c = .ok () c' ∧ Paints c.vga.cell c c' :=
  ⟨_, rfl, rfl, rfl, fun _ => rfl⟩

theorem Paints.trans {f g : Nat → BitVec 16} {c d e : Console} (h : Paints f c d)
    (h' : Paints g d e) : Paints g c e :=
  ⟨h'.current.trans h.current, h'.states.trans h.states, h'.cells⟩

theorem Paints.congr {f g : Nat → BitVec 16} {c d : Console} (h : Paints f c d)
    (hfg : ∀ j, f j = g j) : Paints g c d :=
  ⟨h.current, h.states, fun j => (h.cells j).trans (hfg j)⟩

/-- **A loop that writes cell after cell.** Round `i` writes `e i` to cell `b + i`, where
`e` may look at the cells that are still to be written. -/
theorem forUp_paints {f : Nat → C Unit} {b l n : Nat} {e : Nat → BitVec 16} {c : Console}
    (hf : ∀ i d, l ≤ i → i < l + n →
      Paints (fun j => if b + l ≤ j ∧ j < b + i then e (j - b) else c.vga.cell j) c d →
      f i d = vgaWrite (b + i) (e i) d) :
    ∃ c', forUp f l n c = .ok () c' ∧
      Paints (fun j => if b + l ≤ j ∧ j < b + (l + n) then e (j - b) else c.vga.cell j) c c' := by
  apply forUp_total (fun i d =>
    Paints (fun j => if b + l ≤ j ∧ j < b + i then e (j - b) else c.vga.cell j) c d)
  · exact ⟨rfl, rfl, fun j => (if_neg (by omega)).symm⟩
  · intro i d h1 h2 hd
    obtain ⟨d', hr, hd'⟩ := vgaWrite_paints (b + i) (e i) d
    refine ⟨d', (hf i d h1 h2 hd).trans hr, (hd.trans hd').congr fun j => ?_⟩
    by_cases hj : j = b + i
    · rw [if_pos hj, if_pos (by omega), show j - b = i by omega]
    · rw [if_neg hj, hd.cells]
      by_cases hj' : b + l ≤ j ∧ j < b + i
      · rw [if_pos hj', if_pos (by omega)]
      · rw [if_neg hj', if_neg (by omega)]

theorem screenScroll_cells (c : Console) :
    ∃ c', screenScroll c = .ok () c' ∧ c'.current = c.current ∧
      c'.states = (c.setCur fun s => { s with cursorY := 24 }).states ∧
      (∀ j, j < 1920 → c'.vga.cell j = c.vga.cell (j + 80)) ∧
      ∀ j, 1920 ≤ j → j < 2000 → c'.vga.cell j = vgaEntry space (c.states c.current).color := by
  have hrows := forUp_total (f := fun y => forUp (fun x => do
      vgaWrite (y * screenWidth + x) (← vgaRead ((y + 1) * screenWidth + x))) 0 screenWidth)
    (fun y d => Paints (fun j => if j < 80 * y then c.vga.cell (j + 80) else c.vga.cell j) c d)
    (l := 0) (n := 24) (s := c) ?_ ?_
  · obtain ⟨c₁, hr₁, ht₁⟩ := hrows
    have hlast := forUp_paints (f := fun x => do
        vgaWrite ((screenHeight - 1) * screenWidth + x) (vgaEntry space (← cur).color))
      (b := 1920) (l := 0) (n := 80) (e := fun _ => vgaEntry space (c.states c.current).color)
      (c := c₁) ?_
    · obtain ⟨c₂, hr₂, ht₂⟩ := hlast
      have hcur : c₂.states c₂.current = c.states c.current := ht₂.cur.trans ht₁.cur
      obtain ⟨c₃, hr₃, ht₃⟩ := updateHardwareCursor_paints
        (c₂.setCur fun s => { s with cursorY := 24 })
      refine ⟨c₃, ?_, ?_, ?_, fun j hj => ?_, fun j h1 h2 => ?_⟩
      · unfold screenScroll
        exact (bind_of_ok hr₁).trans ((bind_of_ok hr₂).trans hr₃)
      · rw [ht₃.current, Console.setCur_current, ht₂.current, ht₁.current]
      · rw [ht₃.states]
        unfold Console.setCur
        rw [hcur, ht₂.states, ht₁.states, ht₂.current, ht₁.current]
      · rw [ht₃.cells]
        show c₂.vga.cell j = _
        rw [ht₂.cells, if_neg (by omega), ht₁.cells, if_pos (by omega)]
      · rw [ht₃.cells]
        show c₂.vga.cell j = _
        rw [ht₂.cells, if_pos (by omega)]
    · intro i d h1 h2 hd
      rw [cur_bind, hd.cur, ht₁.cur]
      rfl
  · exact ⟨rfl, rfl, fun j => (if_neg (by omega)).symm⟩
  · intro y d _ hy hd
    have hrow := forUp_paints (f := fun x => do
        vgaWrite (y * screenWidth + x) (← vgaRead ((y + 1) * screenWidth + x)))
      (b := 80 * y) (l := 0) (n := 80) (e := fun x => c.vga.cell (80 * y + x + 80)) (c := d) ?_
    · obtain ⟨d', hr, hd'⟩ := hrow
      refine ⟨d', hr, (hd.trans hd').congr fun j => ?_⟩
      by_cases hj : j < 80 * y
      · rw [if_neg (by omega), hd.cells, if_pos hj, if_pos (by omega)]
      · by_cases hj' : j < 80 * (y + 1)
        · rw [if_pos (by omega), if_pos hj', show 80 * y + (j - 80 * y) + 80 = j + 80 by omega]
        · rw [if_neg (by omega), if_neg hj', hd.cells, if_neg hj]
    · intro x t _ hx ht
      have hread : t.vga.cell ((y + 1) * screenWidth + x) = c.vga.cell (80 * y + x + 80) := by
        rw [show (y + 1) * screenWidth + x = 80 * y + x + 80 by simp only [screenWidth]; omega,
          ht.cells, if_neg (by omega), hd.cells, if_neg (by omega)]
      show vgaWrite (y * screenWidth + x) (t.vga.cell ((y + 1) * screenWidth + x)) t = _
      rw [hread, show y * screenWidth + x = 80 * y + x by simp only [screenWidth]; omega]

/-! ## Drawing on the screen -/

section Draw

variable {fit : Nat → C Nat} {c : Console}

/-- A row of the screen stays where it is. -/
def Still (fit : Nat → C Nat) : Prop := ∀ y c, y < 25 → fit y c = .ok y c

theorem pure_still : Still pure := fun _ _ _ => rfl

theorem scrollInto_still : Still scrollInto := by
  intro y c hy
  unfold scrollInto
  rw [if_neg (by simp only [screenHeight]; omega)]
  rfl

theorem drawTyped_apply (hfit : Still fit) {i : Nat} (hi : i < screenSize)
    (hpos : linePos (c.states c.current) i < 2000) :
    drawTyped fit i c = vgaWrite (linePos (c.states c.current) i)
      (vgaEntry ((c.states c.current).buffer i) (c.states c.current).color) c := by
  obtain ⟨x, y, hw, hx, hxy⟩ := wrapLine_pos (c.states c.current) i
  unfold drawTyped
  rw [cur_bind, hw]
  dsimp only
  rw [bind_of_ok (hfit y c (by omega)), if_pos (by simp only [screenHeight]; omega),
    bind_of_ok (bufGet_apply hi c), cur_bind, ← hxy,
    show y * screenWidth + x = 80 * y + x by simp only [screenWidth]; omega]

theorem eraseEnd_apply (hfit : Still fit)
    (hpos : linePos (c.states c.current) (c.states c.current).inputLength < 2000) :
    eraseEnd fit c = vgaWrite (linePos (c.states c.current) (c.states c.current).inputLength)
      (vgaEntry space (c.states c.current).color) c := by
  obtain ⟨x, y, hw, hx, hxy⟩ :=
    wrapLine_pos (c.states c.current) (c.states c.current).inputLength
  unfold eraseEnd
  rw [cur_bind, hw]
  dsimp only
  rw [bind_of_ok (hfit y c (by omega)), if_pos (by simp only [screenHeight]; omega),
    cur_bind, ← hxy,
    show y * screenWidth + x = 80 * y + x by simp only [screenWidth]; omega]

/-- The cell after the line is the first one below the screen. -/
theorem eraseEnd_scrolls
    (hpos : linePos (c.states c.current) (c.states c.current).inputLength = 2000)
    (hy : 0 < (c.states c.current).inputStartY) :
    eraseEnd scrollInto c = (do
      screenScroll
      setCur fun s => { s with inputStartY := s.inputStartY - 1 }
      vgaWrite 1920 (vgaEntry space (← cur).color) : C Unit) c := by
  obtain ⟨x, y, hw, hx, hxy⟩ :=
    wrapLine_pos (c.states c.current) (c.states c.current).inputLength
  obtain ⟨c₁, hr₁, hk₁, hs₁, -⟩ := screenScroll_cells c
  have hstart : (c₁.states c₁.current).inputStartY > 0 := by
    rw [hk₁, hs₁, Console.setCur_self]
    exact hy
  have hscroll : scrollInto y c = .ok 24
      (c₁.setCur fun s => { s with inputStartY := s.inputStartY - 1 }) := by
    unfold scrollInto
    rw [if_pos (by simp only [screenHeight]; omega), bind_of_ok hr₁, cur_bind, if_pos hstart]
    rfl
  unfold eraseEnd
  rw [cur_bind, hw]
  dsimp only
  rw [bind_of_ok hscroll, if_pos (by decide), bind_of_ok hr₁, bind_of_ok (setCur_apply _ _),
    show x = 0 by omega]
  rfl

/-- The line is drawn, and after an edit the cell after it is blank. -/
structure Drawn (edited : Bool) (c : Console) : Prop where
  column : (c.states c.current).inputStartX < 80
  room : linePos (c.states c.current) (c.states c.current).inputLength < 2000
  cells : ∀ i, i < (c.states c.current).inputLength →
    c.vga.cell (linePos (c.states c.current) i) =
      vgaEntry ((c.states c.current).buffer i) (c.states c.current).color
  blank : edited = true →
    c.vga.cell (linePos (c.states c.current) (c.states c.current).inputLength) =
      vgaEntry space (c.states c.current).color

/-- The line is drawn, and the screen's cursor is where the line's cursor is. -/
structure Shown (edited : Bool) (c : Console) : Prop extends Drawn edited c where
  cursorX : (c.states c.current).cursorX < 80
  cursorY : (c.states c.current).cursorY < 25
  cursor : 80 * (c.states c.current).cursorY + (c.states c.current).cursorX =
    linePos (c.states c.current) (c.states c.current).inputCursor

theorem Drawn.congr {edited : Bool} {c d : Console} (h : Drawn edited c)
    (hvga : ∀ j, d.vga.cell j = c.vga.cell j)
    (hx : (d.states d.current).inputStartX = (c.states c.current).inputStartX)
    (hy : (d.states d.current).inputStartY = (c.states c.current).inputStartY)
    (hL : (d.states d.current).inputLength = (c.states c.current).inputLength)
    (hbuf : (d.states d.current).buffer = (c.states c.current).buffer)
    (hcol : (d.states d.current).color = (c.states c.current).color) : Drawn edited d := by
  have hpos : ∀ i, linePos (d.states d.current) i = linePos (c.states c.current) i := by
    intro i
    unfold linePos
    rw [hx, hy]
  refine ⟨by rw [hx]; exact h.column, by rw [hpos, hL]; exact h.room, fun i hi => ?_, fun he => ?_⟩
  · rw [hvga, hpos, hbuf, hcol]
    exact h.cells i (by omega)
  · rw [hvga, hpos, hL, hcol]
    exact h.blank he

/-- **Placing the cursor** in a line that is drawn. -/
theorem Drawn.placeCursor {edited : Bool} (h : Drawn edited c) (hfit : Still fit)
    (hk : (c.states c.current).inputCursor ≤ (c.states c.current).inputLength) :
    ∃ c', placeCursor fit c = .ok () c' ∧ Shown edited c' := by
  obtain ⟨x, y, hw, hx, hxy⟩ :=
    wrapLine_pos (c.states c.current) (c.states c.current).inputCursor
  have hroom := h.room
  have hy : y < 25 := by
    unfold linePos at hroom hxy
    omega
  obtain ⟨c', hr, hp⟩ := updateHardwareCursor_paints
    (c.setCur fun s => { s with cursorX := x, cursorY := y })
  have hcur : c'.states c'.current = { c.states c.current with cursorX := x, cursorY := y } := by
    rw [hp.cur, Console.setCur_current, Console.setCur_self]
  refine ⟨c', ?_, h.congr (fun j => ?_) ?_ ?_ ?_ ?_ ?_, ?_, ?_, ?_⟩
  · unfold Kfs.placeCursor
    rw [cur_bind, hw]
    dsimp only
    rw [bind_of_ok (hfit y c hy)]
    exact hr
  · exact hp.cells j
  all_goals rw [hcur]
  · exact hx
  · exact hy
  · exact hxy

/-- **The redraw loop**: the characters from the cursor on, all on the screen. -/
theorem redraw_cells (hfit : Still fit) {L k : Nat} (hk : k ≤ L) (hL : L < screenSize)
    (hpos : linePos (c.states c.current) L ≤ 2000) :
    ∃ c', forUp (drawTyped fit) k (L - k) c = .ok () c' ∧ c'.current = c.current ∧
      c'.states = c.states ∧
      ∀ i, i < L → (i < k → c.vga.cell (linePos (c.states c.current) i) =
        vgaEntry ((c.states c.current).buffer i) (c.states c.current).color) →
        c'.vga.cell (linePos (c.states c.current) i) =
          vgaEntry ((c.states c.current).buffer i) (c.states c.current).color := by
  have hloop := forUp_paints (f := drawTyped fit) (b := linePos (c.states c.current) 0) (l := k)
    (n := L - k) (c := c)
    (e := fun i => vgaEntry ((c.states c.current).buffer i) (c.states c.current).color) ?_
  · obtain ⟨c', hr, hp⟩ := hloop
    refine ⟨c', hr, hp.current, hp.states, fun i hi hbefore => ?_⟩
    rw [hp.cells]
    unfold linePos
    by_cases hik : i < k
    · rw [if_neg (by omega)]
      exact hbefore hik
    · rw [if_pos (by omega), Nat.add_zero, Nat.add_sub_cancel_left]
  · intro i d h1 h2 hd
    have hi : linePos (c.states c.current) 0 + i = linePos (c.states c.current) i := by
      unfold linePos
      omega
    rw [drawTyped_apply hfit (by omega) (by rw [hd.cur]; unfold linePos at hpos ⊢; omega),
      hd.cur, hi]

/-- **A redraw** of a line that fits on the screen, given that what is before its cursor
is drawn. -/
theorem redraw_drawn (hfit : Still fit) (hcol : (c.states c.current).inputStartX < 80)
    (hk : (c.states c.current).inputCursor ≤ (c.states c.current).inputLength)
    (hroom : linePos (c.states c.current) (c.states c.current).inputLength < 2000)
    (hbefore : ∀ i, i < (c.states c.current).inputCursor →
      c.vga.cell (linePos (c.states c.current) i) =
        vgaEntry ((c.states c.current).buffer i) (c.states c.current).color) :
    ∃ c', redraw fit c = .ok () c' ∧ Drawn true c' := by
  have hL : (c.states c.current).inputLength < screenSize := by
    unfold linePos at hroom
    simp only [screenSize, screenWidth, screenHeight]
    omega
  obtain ⟨c₁, hr₁, hk₁, hs₁, hc₁⟩ := redraw_cells hfit hk hL (Nat.le_of_lt hroom)
  have hcur₁ : c₁.states c₁.current = c.states c.current := by rw [hs₁, hk₁]
  obtain ⟨c₂, hr₂, hp₂⟩ := vgaWrite_paints
    (linePos (c.states c.current) (c.states c.current).inputLength)
    (vgaEntry space (c.states c.current).color) c₁
  have hcur₂ : c₂.states c₂.current = c.states c.current := hp₂.cur.trans hcur₁
  refine ⟨c₂, ?_, ?_, ?_, fun i hi => ?_, fun _ => ?_⟩
  · unfold redraw
    rw [cur_bind, bind_of_ok hr₁, eraseEnd_apply hfit (by rw [hcur₁]; exact hroom), hcur₁]
    exact hr₂
  all_goals rw [hcur₂] at *
  · exact hcol
  · exact hroom
  · rw [hp₂.cells, if_neg (by unfold linePos; omega)]
    exact hc₁ i hi (hbefore i)
  · rw [hp₂.cells, if_pos rfl]

/-- **A redraw that scrolls**: the cell after the line is the first one below the
screen, so the start of the line moves up with the rows. -/
theorem redraw_scrolls (hcol : (c.states c.current).inputStartX < 80)
    (hk : (c.states c.current).inputCursor ≤ (c.states c.current).inputLength)
    (hpos : linePos (c.states c.current) (c.states c.current).inputLength = 2000)
    (hy : 0 < (c.states c.current).inputStartY)
    (hbefore : ∀ i, i < (c.states c.current).inputCursor →
      c.vga.cell (linePos (c.states c.current) i) =
        vgaEntry ((c.states c.current).buffer i) (c.states c.current).color) :
    ∃ c', redraw scrollInto c = .ok () c' ∧ Drawn true c' := by
  have hL : (c.states c.current).inputLength < screenSize := by
    unfold linePos at hpos
    simp only [screenSize, screenWidth, screenHeight]
    omega
  obtain ⟨c₁, hr₁, hk₁, hs₁, hc₁⟩ := redraw_cells scrollInto_still hk hL (Nat.le_of_eq hpos)
  have hcur₁ : c₁.states c₁.current = c.states c.current := by rw [hs₁, hk₁]
  obtain ⟨c₂, hr₂, hk₂, hs₂, hup₂, -⟩ := screenScroll_cells c₁
  obtain ⟨c₃, hc₃⟩ : ∃ c₃, c₃ = c₂.setCur fun s => { s with inputStartY := s.inputStartY - 1 } :=
    ⟨_, rfl⟩
  have hcur₃ : c₃.states c₃.current = { c.states c.current with
      cursorY := 24
      inputStartY := (c.states c.current).inputStartY - 1 } := by
    rw [hc₃, Console.setCur_current, Console.setCur_self, hk₂, hs₂, Console.setCur_self, hcur₁]
  obtain ⟨c₄, hr₄, hp₄⟩ := vgaWrite_paints 1920 (vgaEntry space (c₃.states c₃.current).color) c₃
  have hcur₄ : c₄.states c₄.current = _ := hp₄.cur.trans hcur₃
  have hlen₄ : (c₄.states c₄.current).inputLength = (c.states c.current).inputLength := by
    rw [hcur₄]
  have hmoved : ∀ i, linePos (c₄.states c₄.current) i + 80 = linePos (c.states c.current) i := by
    intro i
    rw [hcur₄]
    unfold linePos
    dsimp only
    omega
  have hend := hmoved (c.states c.current).inputLength
  refine ⟨c₄, ?_, ?_, ?_, fun i hi => ?_, fun _ => ?_⟩
  · unfold redraw
    rw [cur_bind, bind_of_ok hr₁, eraseEnd_scrolls (by rw [hcur₁]; exact hpos)
      (by rw [hcur₁]; exact hy),
      bind_of_ok hr₂, bind_of_ok (setCur_apply _ _), ← hc₃, cur_bind]
    exact hr₄
  · rw [hcur₄]
    exact hcol
  · rw [hlen₄]
    omega
  · rw [hlen₄] at hi
    have hpos_i := hmoved i
    have hlt : linePos (c.states c.current) i < 2000 := by
      unfold linePos at hpos ⊢
      omega
    rw [hp₄.cells, if_neg (by omega), hc₃]
    show c₂.vga.cell _ = _
    rw [hup₂ _ (by omega), hpos_i, hc₁ i hi (hbefore i), hcur₄]
  · rw [hp₄.cells, hlen₄, if_pos (by omega), hcur₃, hcur₄]

end Draw

/-! ## The start column stays -/

/-- The same screen is current, and its line starts in the same column. -/
def SameColumn (c c' : Console) : Prop :=
  c'.current = c.current ∧
    (c'.states c'.current).inputStartX = (c.states c.current).inputStartX

theorem column_frame : Frame SameColumn where
  refl _ := ⟨rfl, rfl⟩
  trans h h' := ⟨h'.1.trans h.1, h'.2.trans h.2⟩

theorem cur_column : Keeps SameColumn cur :=
  .bind column_frame (.get column_frame) fun _ => .pure column_frame _

theorem setCur_column {f : ScreenState → ScreenState}
    (hf : ∀ s, (f s).inputStartX = s.inputStartX) :
    Keeps SameColumn (setCur f) := by
  apply Keeps.modify
  intro c
  refine ⟨rfl, ?_⟩
  show (Function.update c.states c.current _ c.current).inputStartX = _
  rw [Function.update_self, hf]

theorem updateHardwareCursor_column : Keeps SameColumn updateHardwareCursor :=
  .modify fun _ => ⟨rfl, rfl⟩

theorem bufGet_column (i : Nat) : Keeps SameColumn (bufGet i) :=
  .ite (.bind column_frame cur_column fun _ => .pure column_frame _) (.throw _)

theorem bufSet_column (i : Nat) (b : BitVec 8) : Keeps SameColumn (bufSet i b) :=
  .ite (setCur_column fun _ => rfl) (.throw _)

theorem paint_column (i : Nat) (uc : BitVec 8) :
    Keeps SameColumn (do vgaWrite i (vgaEntry uc (← cur).color)) :=
  .bind column_frame cur_column fun _ => .modify fun _ => ⟨rfl, rfl⟩

theorem screenScroll_column : Keeps SameColumn screenScroll := by
  have hrow : ∀ y x, Keeps SameColumn (do
      vgaWrite (y * screenWidth + x) (← vgaRead ((y + 1) * screenWidth + x))) := fun y x =>
    .bind column_frame (.bind column_frame (.get column_frame) fun _ => .pure column_frame _)
      fun _ => .modify fun _ => ⟨rfl, rfl⟩
  exact .bind column_frame (.forUp column_frame (fun y => .forUp column_frame (hrow y) _ _) _ _)
    fun _ => .bind column_frame (.forUp column_frame (fun _ => paint_column _ _) _ _) fun _ =>
      .bind column_frame (setCur_column fun _ => rfl) fun _ => updateHardwareCursor_column

theorem scrollInto_column (y : Nat) : Keeps SameColumn (scrollInto y) :=
  .ite (.bind column_frame screenScroll_column fun _ => .bind column_frame cur_column fun _ =>
    .ite (.bind column_frame (setCur_column fun _ => rfl) fun _ => .pure column_frame _)
      (.pure column_frame _)) (.pure column_frame _)

theorem redraw_column : Keeps SameColumn (redraw scrollInto) := by
  have htyped : ∀ i, Keeps SameColumn (drawTyped scrollInto i) := fun i =>
    .bind column_frame cur_column fun _ => .bind column_frame (scrollInto_column _) fun _ =>
      .ite (.bind column_frame (bufGet_column i) fun _ => paint_column _ _) (.pure column_frame ())
  exact .bind column_frame cur_column fun _ => .bind column_frame (.forUp column_frame htyped _ _)
    fun _ => .bind column_frame cur_column fun _ => .bind column_frame (scrollInto_column _)
      fun _ => .ite (paint_column _ _) (.pure column_frame ())

theorem placeCursor_column : Keeps SameColumn (placeCursor scrollInto) :=
  .bind column_frame cur_column fun _ => .bind column_frame (scrollInto_column _) fun _ =>
    .bind column_frame (setCur_column fun _ => rfl) fun _ => updateHardwareCursor_column

theorem insert_column (b : BitVec 8) : Keeps SameColumn (inputInsertCharAtCursor b) := by
  have hshift : Keeps SameColumn shiftRight :=
    .bind column_frame cur_column fun _ => .forUp column_frame (fun _ =>
      .bind column_frame (bufGet_column _) fun _ => bufSet_column _ _) _ _
  refine .ite (.bind column_frame cur_column fun s => .ite ?_ (.pure column_frame ()))
    (.pure column_frame ())
  exact .bind column_frame hshift fun _ => .bind column_frame (bufSet_column _ _) fun _ =>
    .bind column_frame (setCur_column fun _ => rfl) fun _ =>
      .bind column_frame (bufSet_column _ _) fun _ => .bind column_frame redraw_column fun _ =>
        .bind column_frame (setCur_column fun _ => rfl) fun _ => placeCursor_column

/-! ## The keys -/

section Keys

variable {c : Console} {edited : Bool}

theorem inserted_before {buf : Mem} {L k i : Nat} {b : BitVec 8} (hi : i < k) (hk : k ≤ L) :
    inserted buf L k b i = buf i := by
  unfold inserted movedUp
  rw [storeByte_other (by omega), storeByte_other (by omega), if_neg (by omega)]

theorem deleted_before {buf : Mem} {L k i : Nat} (hi : i < k - 1) (hk : k ≤ L) :
    deleted buf L k i = buf i := by
  unfold deleted movedDown
  rw [storeByte_other (by omega), if_neg (by omega)]

def Console.setLine (c : Console) (L k : Nat) (buf : Mem) : Console :=
  c.setCur fun s => { s with buffer := buf, inputLength := L, inputCursor := k }

theorem Console.setLine_cur (c : Console) (L k : Nat) (buf : Mem) :
    (c.setLine L k buf).states (c.setLine L k buf).current =
      { c.states c.current with buffer := buf, inputLength := L, inputCursor := k } :=
  Console.setCur_self _ _

/-- **An edit redraws its line**: what is before the cursor was drawn, the rest is drawn
now, and at the end of the screen the rows move up. -/
theorem Shown.redraws (h : Shown edited c) {fit : Nat → C Nat}
    (hfit : fit = scrollInto ∨ fit = pure) {L k : Nat} {buf : Mem} (hk : k ≤ L)
    (hbuf : ∀ i, i < k → i < (c.states c.current).inputLength ∧
      buf i = (c.states c.current).buffer i)
    (hroom : linePos (c.states c.current) L < 2000 ∨
      fit = scrollInto ∧ linePos (c.states c.current) L = 2000 ∧
        0 < (c.states c.current).inputStartY) :
    ∃ c', redraw fit (c.setLine L k buf) = .ok () c' ∧ Drawn true c' ∧
      LineAt L k (c'.states c'.current) := by
  obtain ⟨c₁, hc₁⟩ : ∃ c₁, c₁ = c.setLine L k buf := ⟨_, rfl⟩
  have hcur₁ : c₁.states c₁.current = { c.states c.current with
      buffer := buf
      inputLength := L
      inputCursor := k } := by
    rw [hc₁]
    exact c.setLine_cur L k buf
  have hbefore : ∀ i, i < (c₁.states c₁.current).inputCursor →
      c₁.vga.cell (linePos (c₁.states c₁.current) i) =
        vgaEntry ((c₁.states c₁.current).buffer i) (c₁.states c₁.current).color := by
    rw [hcur₁, hc₁]
    intro i hi
    obtain ⟨hi', hb⟩ := hbuf i hi
    dsimp only
    rw [hb]
    exact h.cells i hi'
  have hstill : Still fit := by
    rcases hfit with rfl | rfl
    · exact scrollInto_still
    · exact pure_still
  have hdraws : ∀ y, Total (Touches SameText) (fit y) := by
    rcases hfit with rfl | rfl
    · exact scrollInto_draws
    · exact fun y => .pure drawing y
  have hdrawn : ∃ c', redraw fit c₁ = .ok () c' ∧ Drawn true c' := by
    rcases hroom with hroom | ⟨rfl, hend, hy⟩
    · apply redraw_drawn hstill _ _ _ hbefore
      all_goals rw [hcur₁]
      · exact h.column
      · exact hk
      · exact hroom
    · apply redraw_scrolls _ _ _ _ hbefore
      all_goals rw [hcur₁]
      · exact h.column
      · exact hk
      · exact hend
      · exact hy
  obtain ⟨c', hr, hd⟩ := hdrawn
  have hlen : (c₁.states c₁.current).inputLength < screenSize := by
    have hcol := h.column
    rw [hcur₁]
    simp only [screenSize, screenWidth, screenHeight]
    unfold linePos at hroom
    omega
  obtain ⟨d, hr', ht⟩ := redraw_ok (c := c₁) hdraws hlen
  obtain rfl : c' = d := by
    rw [hr] at hr'
    cases hr'
    rfl
  obtain ⟨-, h1, h2⟩ := ht.keep
  rw [hcur₁, ← ht.current] at h1 h2
  rw [← hc₁]
  exact ⟨c', hr, hd, h1, h2⟩

/-- **An insert** shows the longer line. -/
theorem Shown.insert (h : Shown edited c)
    (hk : (c.states c.current).inputCursor ≤ (c.states c.current).inputLength)
    (hfits : (c.states c.current).inputStartX + ((c.states c.current).inputLength + 1) < 2000)
    {b : BitVec 8} (hb : 32 ≤ b.toNat ∧ b.toNat ≤ 126) :
    ∃ c', inputInsertCharAtCursor b c = .ok () c' ∧ Shown true c' := by
  obtain ⟨L, hL⟩ : ∃ L, L = (c.states c.current).inputLength := ⟨_, rfl⟩
  obtain ⟨k, hkc⟩ : ∃ k, k = (c.states c.current).inputCursor := ⟨_, rfl⟩
  rw [← hL, ← hkc] at hk
  rw [← hL] at hfits
  have hroom := h.room
  rw [← hL] at hroom
  unfold linePos at hroom
  have hend : linePos (c.states c.current) (L + 1) < 2000 ∨ scrollInto = scrollInto ∧
      linePos (c.states c.current) (L + 1) = 2000 ∧ 0 < (c.states c.current).inputStartY := by
    unfold linePos
    by_cases hlt : 80 * (c.states c.current).inputStartY + (c.states c.current).inputStartX +
        (L + 1) < 2000
    · exact .inl hlt
    · exact .inr ⟨rfl, by omega, by omega⟩
  obtain ⟨c₂, hr₂, hd₂, hat₂⟩ := h.redraws (.inl rfl) (show k ≤ L + 1 by omega)
    (fun i hi => ⟨by omega, inserted_before (b := b) hi hk⟩) hend
  obtain ⟨c₃, hc₃⟩ : ∃ c₃, c₃ = c₂.setCur fun s => { s with inputCursor := s.inputCursor + 1 } :=
    ⟨_, rfl⟩
  have hcur₃ : c₃.states c₃.current = { c₂.states c₂.current with
      inputCursor := (c₂.states c₂.current).inputCursor + 1 } := by
    rw [hc₃, Console.setCur_current, Console.setCur_self]
  have hd₃ : Drawn true c₃ := by
    apply hd₂.congr
    · intro j
      rw [hc₃]
      rfl
    all_goals rw [hcur₃]
  obtain ⟨c₄, hr₄, hshown⟩ := hd₃.placeCursor scrollInto_still (by
    rw [hcur₃]
    show (c₂.states c₂.current).inputCursor + 1 ≤ (c₂.states c₂.current).inputLength
    rw [hat₂.1, hat₂.2]
    omega)
  refine ⟨c₄, ?_, hshown⟩
  rw [insert_eq ⟨hL.symm, hkc.symm⟩ hk
    (by simp only [screenSize, screenWidth, screenHeight]; omega) hb]
  have hedit : (c.setCur fun s => { s with
      buffer := inserted s.buffer L k b
      inputLength := L + 1 }) = c.setLine (L + 1) k (inserted (c.states c.current).buffer L k b) :=
    Console.setCur_congr (by rw [hkc])
  rw [hedit, bind_of_ok hr₂, bind_of_ok (setCur_apply _ _), ← hc₃]
  exact hr₄

/-- **A delete** shows the shorter line. -/
theorem Shown.delete (h : Shown edited c)
    (hk : (c.states c.current).inputCursor ≤ (c.states c.current).inputLength)
    (hpos : 0 < (c.states c.current).inputCursor) :
    ∃ c', inputDeleteCharAtCursor c = .ok () c' ∧ Shown true c' := by
  obtain ⟨L, hL⟩ : ∃ L, L = (c.states c.current).inputLength := ⟨_, rfl⟩
  obtain ⟨k, hkc⟩ : ∃ k, k = (c.states c.current).inputCursor := ⟨_, rfl⟩
  rw [← hL, ← hkc] at hk
  rw [← hkc] at hpos
  have hroom := h.room
  rw [← hL] at hroom
  unfold linePos at hroom
  obtain ⟨c₂, hr₂, hd₂, hat₂⟩ := h.redraws (.inr rfl) (show k - 1 ≤ L - 1 by omega)
    (fun i hi => ⟨by omega, deleted_before hi hk⟩) (.inl (by unfold linePos; omega))
  obtain ⟨c₃, hr₃, hshown⟩ := hd₂.placeCursor pure_still (by rw [hat₂.1, hat₂.2]; omega)
  refine ⟨c₃, ?_, hshown⟩
  rw [delete_eq ⟨hL.symm, hkc.symm⟩ hk
    (by simp only [screenSize, screenWidth, screenHeight]; omega) hpos]
  have hedit : (c.setCur fun s => { s with
      buffer := deleted s.buffer L k
      inputLength := L - 1
      inputCursor := k - 1 }) =
      c.setLine (L - 1) (k - 1) (deleted (c.states c.current).buffer L k) :=
        Console.setCur_congr rfl
  rw [hedit, bind_of_ok hr₂]
  exact hr₃

/-- **A move** leaves the line as it is drawn. -/
theorem Shown.move (h : Shown edited c) {k : Nat} (hk : k ≤ (c.states c.current).inputLength) :
    ∃ c', (do setCur fun s => { s with inputCursor := k }
              placeCursor pure : C Unit) c = .ok () c' ∧ Shown edited c' := by
  obtain ⟨c₁, hc₁⟩ : ∃ c₁, c₁ = c.setCur fun s => { s with inputCursor := k } := ⟨_, rfl⟩
  have hcur₁ : c₁.states c₁.current = { c.states c.current with inputCursor := k } := by
    rw [hc₁, Console.setCur_current, Console.setCur_self]
  have hd₁ : Drawn edited c₁ := by
    apply h.congr
    · intro j
      rw [hc₁]
      rfl
    all_goals rw [hcur₁]
  obtain ⟨c₂, hr₂, hshown⟩ := hd₁.placeCursor pure_still (by rw [hcur₁]; exact hk)
  refine ⟨c₂, ?_, hshown⟩
  rw [bind_of_ok (setCur_apply _ _), ← hc₁]
  exact hr₂

end Keys

/-! ## Sequences of keys -/

/-- A screen has room for the line from its start column on. -/
def Fits (c : Console) : Prop :=
  (c.states c.current).inputStartX + (c.states c.current).inputLength < 2000

/-- An empty line at a prompt on the screen. -/
structure AtPrompt (s : ScreenState) : Prop where
  startX : s.inputStartX < 80
  startY : s.inputStartY < 25
  length : s.inputLength = 0
  lineCursor : s.inputCursor = 0
  cursorX : s.cursorX = s.inputStartX
  cursorY : s.cursorY = s.inputStartY

theorem AtPrompt.shown {c : Console} (h : AtPrompt (c.states c.current)) : Shown false c := by
  obtain ⟨h1, h2, h3, h4, h5, h6⟩ := h
  refine ⟨⟨h1, ?_, fun i hi => ?_, fun he => ?_⟩, ?_, ?_, ?_⟩
  · unfold linePos
    omega
  · omega
  · cases he
  · omega
  · omega
  · unfold linePos
    rw [h4, h5, h6]
    rfl

theorem AtPrompt.represents {s : ScreenState} (h : AtPrompt s) : Represents s Editor.empty := by
  refine ⟨?_, h.lineCursor, fun he => by cases he⟩
  rw [lineText, h.length]
  rfl

/-- **Every key** keeps the line on the screen. -/
theorem EditOp.run_shown {c : Console} {e : Editor} (h : Shown e.edited c)
    (hrep : Represents (c.states c.current) e) (hok : e.Ok) (op : EditOp)
    (hfits : ∀ c', op.run c = .ok () c' → Fits c') :
    ∃ c', op.run c = .ok () c' ∧ Shown (e.step op).edited c' := by
  have hlen := hrep.length
  have hcur := hrep.cursor
  have hle := hok.cursor
  obtain ⟨hr, hstep⟩ | ⟨b, rfl, hb, hroom, hstep⟩ | ⟨rfl, hpos, hstep⟩ | ⟨k, hk, hstep, hrun⟩ :=
    op.run_cases hrep
  · exact ⟨c, hr, by rw [hstep]; exact h⟩
  · obtain ⟨c', hr, ht⟩ := insert_ok (c := c) ⟨rfl, rfl, rfl⟩ (by omega)
      (by simp only [screenSize, screenWidth, screenHeight]; omega) hb
    have hfit := hfits c' hr
    have hcol := (insert_column b c () c' hr).2
    unfold Fits at hfit
    rw [hcol, ht.lineAt.length] at hfit
    rw [hstep]
    exact h.insert (by omega) hfit hb
  · rw [hstep]
    exact h.delete (by omega) (by omega)
  · obtain ⟨c', hr, hshown⟩ := h.move (k := k) (by rw [hlen]; exact hk hle)
    rw [hstep]
    exact ⟨c', hrun.trans hr, hshown⟩

/-- **Every sequence of keys** does. -/
theorem runEdits_shown : ∀ (ops : List EditOp) {c : Console} {e : Editor}, Shown e.edited c →
    Represents (c.states c.current) e → e.Ok →
    (∀ ops' c', ops' <+: ops → runEdits ops' c = .ok () c' → Fits c') →
    ∃ c', runEdits ops c = .ok () c' ∧ Shown (e.steps ops).edited c'
  | [], c, e, h, _, _, _ => ⟨c, rfl, h⟩
  | op :: ops, c, e, h, hrep, hok, hfits => by
    have hone : ∀ c', op.run c = .ok () c' → Fits c' := by
      intro c' hr
      apply hfits [op] c'
      · exact List.prefix_append [op] ops
      · exact (bind_of_ok hr).trans rfl
    obtain ⟨c₁, hr₁, hshown⟩ := op.run_shown h hrep hok hone
    obtain ⟨d, hd, ht⟩ := op.run_edit hrep hok
    obtain rfl : c₁ = d := by
      rw [hr₁] at hd
      cases hd
      rfl
    have hrep₁ : Represents (c₁.states c₁.current) (e.step op) := by
      rw [ht.current]
      exact ht.keep
    obtain ⟨c₂, hr₂, hshown₂⟩ := runEdits_shown ops hshown hrep₁ (hok.step op) (by
      intro ops' c' hpre hr
      apply hfits (op :: ops') c'
      · exact List.cons_prefix_cons.mpr ⟨rfl, hpre⟩
      · exact (bind_of_ok hr₁).trans hr)
    exact ⟨c₂, (bind_of_ok hr₁).trans hr₂, hshown₂⟩

/-- **The screen shows the line being edited.** From any text memory and any prompt on the
screen, a sequence of keys during which the line fits leaves every character of
the line in its cell, the cursor at its place, and after an edit a blank cell
behind the line. -/
theorem inputLine_shown {c : Console} (h : AtPrompt (c.states c.current)) {ops : List EditOp}
    (hfits : ∀ ops' c', ops' <+: ops → runEdits ops' c = .ok () c' → Fits c') :
    ∃ c', runEdits ops c = .ok () c' ∧ Shown (Editor.empty.steps ops).edited c' :=
  runEdits_shown (e := Editor.empty) ops h.shown h.represents ⟨Nat.le_refl _, by decide⟩ hfits

/-- A `k` typed in the last cell of the screen scrolls it. -/
theorem inputLine_shown_corner : ∃ c c', AtPrompt (c.states c.current) ∧
    (c.states c.current).inputStartX = 79 ∧ (c.states c.current).inputStartY = 24 ∧
    runEdits [.insert 107] c = .ok () c' ∧ Shown true c' := by
  obtain ⟨c, hc⟩ : ∃ c : Console,
      c = ⟨fun _ => ⟨fun _ => 0, 79, 24, 0, 0, 79, 24, 0⟩, 0, ⟨fun _ => 0, []⟩, 0⟩ := ⟨_, rfl⟩
  have hprompt : AtPrompt (c.states c.current) := by
    rw [hc]
    exact ⟨by decide, by decide, rfl, rfl, rfl, rfl⟩
  have hfits : ∀ ops' c', ops' <+: [EditOp.insert 107] → runEdits ops' c = .ok () c' → Fits c' := by
    intro ops' c' hpre hr
    cases ops' with
    | nil =>
      cases hr
      rw [hc]
      exact (by decide : 79 + 0 < 2000)
    | cons op ops' =>
      obtain ⟨rfl, hnil⟩ := List.cons_prefix_cons.mp hpre
      obtain rfl := List.prefix_nil.mp hnil
      obtain ⟨_, d, hr, hd⟩ := bind_eq_ok.mp hr
      cases hd
      obtain ⟨d', hr', ht⟩ := insert_ok (c := c) (b := 107) (L := 0)
        (k := 0) ⟨by rw [hc], by rw [hc], rfl⟩
        (Nat.le_refl 0) (by decide) (by decide)
      have hcol := (insert_column 107 c () c' hr).2
      obtain rfl : c' = d' := by
        have := hr.symm.trans hr'
        cases this
        rfl
      unfold Fits
      rw [hcol, ht.lineAt.length, hc]
      exact (by decide : 79 + 1 < 2000)
  obtain ⟨c', hr, hshown⟩ := inputLine_shown hprompt hfits
  exact ⟨c, c', hprompt, by rw [hc], by rw [hc], hr, hshown⟩

end Kfs
