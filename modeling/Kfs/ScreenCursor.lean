import Kfs.ScreenShow

/-!
# The cursor while a line is edited

An insert that runs below the screen scrolls and moves the start of the line up by
a row, until that start is in row 0; from then on its positions are clamped to the
last row. Delete and the arrow keys compute the cursor's position from the start
and do not look at the last row. So the cursor leaves the screen exactly when one
of these three keys puts it behind the last cell (`cursor_on_screen`), which takes
a line that has grown past the screen from a start in row 0.
-/

namespace Kfs

open Kfs.Lib

def OnScreen (c : Console) : Prop :=
  (c.states c.current).cursorY < 25 ∧ (c.states c.current).cursorX < 80

def EditStep (c : Console) (op : EditOp) (c' : Console) : Prop := op.run c = .ok () c'

/-- **The condition on a key**: a delete or a move puts the cursor before the last cell's end. -/
def CursorFits (c : Console) : EditOp → Prop
  | .insert _ => True
  | .delete => 0 < (c.states c.current).inputCursor ∧ 0 < (c.states c.current).inputLength →
    linePos (c.states c.current) ((c.states c.current).inputCursor - 1) < 2000
  | .left => 0 < (c.states c.current).inputCursor →
    linePos (c.states c.current) ((c.states c.current).inputCursor - 1) < 2000
  | .right => (c.states c.current).inputCursor < (c.states c.current).inputLength →
    linePos (c.states c.current) ((c.states c.current).inputCursor + 1) < 2000

/-- **The invariant**: the line ends on the screen, or its start has moved up to row 0. -/
structure Anchored (s : ScreenState) : Prop where
  line : LineOk s
  column : s.inputStartX < 80
  room : linePos s s.inputLength < 2000 ∨ s.inputStartY = 0

theorem linePos_mono {s : ScreenState} {i j : Nat} (h : i ≤ j) : linePos s i ≤ linePos s j := by
  unfold linePos
  omega

/-- Every character of an anchored line is on the screen, or the line starts in row 0. -/
theorem Anchored.char {s : ScreenState} (h : Anchored s) {i : Nat} (hi : i ≤ s.inputLength) :
    linePos s i < 2000 ∨ s.inputStartY = 0 := by
  have hmono := linePos_mono (s := s) hi
  exact h.room.imp_left (Nat.lt_of_le_of_lt hmono)

theorem AtPrompt.anchored {s : ScreenState} (h : AtPrompt s) : Anchored s := by
  obtain ⟨h1, h2, h3, h4, -, -⟩ := h
  refine ⟨⟨by omega, by rw [h3]; decide⟩, h1, .inl ?_⟩
  unfold linePos
  omega

/-! ## Drawing without a move of the start -/

/-- The line has the same start, length and cursor. -/
structure SameStart (s s' : ScreenState) : Prop where
  startX : s'.inputStartX = s.inputStartX
  startY : s'.inputStartY = s.inputStartY
  length : s'.inputLength = s.inputLength
  cursor : s'.inputCursor = s.inputCursor

theorem sameStart_frame : Frame SameStart where
  refl _ := ⟨rfl, rfl, rfl, rfl⟩
  trans h h' := ⟨h'.startX.trans h.startX, h'.startY.trans h.startY, h'.length.trans h.length,
    h'.cursor.trans h.cursor⟩

theorem SameStart.linePos {s s' : ScreenState} (h : SameStart s s') (i : Nat) :
    linePos s' i = linePos s i := by
  unfold Kfs.linePos
  rw [h.startX, h.startY]

theorem startFrame : Frame (Touches SameStart) := touches_frame sameStart_frame

theorem Touches.keep_cur {keep : ScreenState → ScreenState → Prop}
    {c c' : Console} (h : Touches keep c c') :
    keep (c.states c.current) (c'.states c'.current) := by
  rw [h.current]
  exact h.keep

section Draw

variable {fit : Nat → C Nat} {c : Console}

/-- A row on the screen, or any row of a line that starts in row 0, leaves the start alone. -/
def Stays (fit : Nat → C Nat) : Prop :=
  ∀ c y, y < 25 ∨ (c.states c.current).inputStartY = 0 →
    ∃ y' c', fit y c = .ok y' c' ∧ Touches SameStart c c'

theorem pure_stays : Stays pure := fun c y _ => ⟨y, c, rfl, startFrame.refl c⟩

theorem scrollInto_row {y : Nat} (h : y < 25 ∨ (c.states c.current).inputStartY = 0) :
    ∃ y' c', scrollInto y c = .ok y' c' ∧ y' < 25 ∧ Touches SameStart c c' := by
  by_cases hy : y < 25
  · exact ⟨y, c, scrollInto_still y c hy, hy, startFrame.refl c⟩
  · have hzero : (c.states c.current).inputStartY = 0 := h.resolve_left hy
    obtain ⟨c₁, hr₁, hk₁, hs₁, -⟩ := screenScroll_cells c
    have ht₁ : Touches SameStart c c₁ := by
      refine ⟨hk₁, fun j hj => ?_, ?_⟩
      · rw [hs₁]
        exact c.setCur_other _ hj
      · rw [hs₁, Console.setCur_self]
        exact ⟨rfl, rfl, rfl, rfl⟩
    have hstart : ¬ (c₁.states c₁.current).inputStartY > 0 := by
      rw [ht₁.keep_cur.startY, hzero]
      exact Nat.lt_irrefl 0
    refine ⟨24, c₁, ?_, by decide, ht₁⟩
    unfold scrollInto
    rw [if_pos (show y ≥ screenHeight from Nat.le_of_not_lt hy),
      bind_of_ok hr₁, cur_bind, if_neg hstart]
    rfl

theorem scrollInto_stays : Stays scrollInto := by
  intro c y h
  obtain ⟨y', c', hr, -, ht⟩ := scrollInto_row h
  exact ⟨y', c', hr, ht⟩

theorem row_on_screen {s : ScreenState} {i x y : Nat} (hx : x < 80)
    (hxy : 80 * y + x = linePos s i) :
    y < 25 ↔ linePos s i < 2000 := by omega

theorem drawTyped_stays (hfit : Stays fit) {i : Nat} (hi : i < screenSize)
    (h : linePos (c.states c.current) i < 2000 ∨ (c.states c.current).inputStartY = 0) :
    ∃ c', drawTyped fit i c = .ok () c' ∧ Touches SameStart c c' := by
  obtain ⟨x, y, hw, hx, hxy⟩ := wrapLine_pos (c.states c.current) i
  obtain ⟨y', c₁, hr₁, ht₁⟩ := hfit c y (h.imp_left (row_on_screen hx hxy).mpr)
  unfold drawTyped
  rw [cur_bind, hw]
  dsimp only
  rw [bind_of_ok hr₁]
  by_cases hy : y' < screenHeight
  · obtain ⟨_, c₂, hr₂, ht₂⟩ := paint_total sameStart_frame (y' * screenWidth + x)
      ((c₁.states c₁.current).buffer i) c₁
    rw [if_pos hy, bind_of_ok (bufGet_apply hi c₁)]
    exact ⟨c₂, hr₂, startFrame.trans ht₁ ht₂⟩
  · rw [if_neg hy]
    exact ⟨c₁, rfl, ht₁⟩

theorem eraseEnd_stays (hfit : Stays fit)
    (h : linePos (c.states c.current) (c.states c.current).inputLength < 2000 ∨
      (c.states c.current).inputStartY = 0) :
    ∃ c', eraseEnd fit c = .ok () c' ∧ Touches SameStart c c' := by
  obtain ⟨x, y, hw, hx, hxy⟩ :=
    wrapLine_pos (c.states c.current) (c.states c.current).inputLength
  obtain ⟨y', c₁, hr₁, ht₁⟩ := hfit c y (h.imp_left (row_on_screen hx hxy).mpr)
  unfold eraseEnd
  rw [cur_bind, hw]
  dsimp only
  rw [bind_of_ok hr₁]
  by_cases hy : y' < screenHeight
  · obtain ⟨_, c₂, hr₂, ht₂⟩ := paint_total sameStart_frame (y' * screenWidth + x) space c₁
    rw [if_pos hy]
    exact ⟨c₂, hr₂, startFrame.trans ht₁ ht₂⟩
  · rw [if_neg hy]
    exact ⟨c₁, rfl, ht₁⟩

theorem placeCursor_at {x y y' : Nat} {c₁ : Console}
    (hw : wrapLine ((c.states c.current).inputStartX + (c.states c.current).inputCursor)
      (c.states c.current).inputStartY = (x, y))
    (hr : fit y c = .ok y' c₁) (ht : Touches SameStart c c₁) :
    ∃ c', placeCursor fit c = .ok () c' ∧ Touches SameStart c c' ∧
      (c'.states c'.current).cursorX = x ∧ (c'.states c'.current).cursorY = y' := by
  obtain ⟨c₂, hr₂, hp₂⟩ := updateHardwareCursor_paints
    (c₁.setCur fun s => { s with cursorX := x, cursorY := y' })
  have hcur : c₂.states c₂.current = { c₁.states c₁.current with cursorX := x, cursorY := y' } := by
    rw [hp₂.cur, Console.setCur_current, Console.setCur_self]
  have ht₂ : Touches SameStart c₁ c₂ := by
    refine ⟨hp₂.current, fun j hj => ?_, ?_⟩
    · rw [hp₂.states]
      exact c₁.setCur_other _ hj
    · have hcurrent : c₂.current = c₁.current := hp₂.current
      rw [hcurrent] at hcur
      rw [hcur]
      exact ⟨rfl, rfl, rfl, rfl⟩
  refine ⟨c₂, ?_, startFrame.trans ht ht₂, by rw [hcur], by rw [hcur]⟩
  unfold placeCursor
  rw [cur_bind, hw]
  dsimp only
  rw [bind_of_ok hr]
  exact hr₂

/-- Placed without a look at the last row, the cursor is on the screen when its position is. -/
theorem placeCursor_pure : ∃ c', placeCursor pure c = .ok () c' ∧ Touches SameStart c c' ∧
    (OnScreen c' ↔ linePos (c.states c.current) (c.states c.current).inputCursor < 2000) := by
  obtain ⟨x, y, hw, hx, hxy⟩ :=
    wrapLine_pos (c.states c.current) (c.states c.current).inputCursor
  obtain ⟨c', hr, ht, hcx, hcy⟩ := @placeCursor_at pure c x y y c hw rfl (startFrame.refl c)
  refine ⟨c', hr, ht, ?_⟩
  unfold OnScreen
  rw [hcx, hcy, row_on_screen hx hxy]
  exact and_iff_left hx

theorem placeCursor_clamped
    (h : linePos (c.states c.current) (c.states c.current).inputCursor < 2000 ∨
      (c.states c.current).inputStartY = 0) :
    ∃ c', placeCursor scrollInto c = .ok () c' ∧ Touches SameStart c c' ∧ OnScreen c' := by
  obtain ⟨x, y, hw, hx, hxy⟩ :=
    wrapLine_pos (c.states c.current) (c.states c.current).inputCursor
  obtain ⟨y', c₁, hr₁, hy', ht₁⟩ := scrollInto_row (h.imp_left (row_on_screen hx hxy).mpr)
  obtain ⟨c', hr, ht, hcx, hcy⟩ := placeCursor_at hw hr₁ ht₁
  refine ⟨c', hr, ht, ?_⟩
  unfold OnScreen
  rw [hcx, hcy]
  exact ⟨hy', hx⟩

theorem redraw_loop (hfit : Stays fit) {k n : Nat} (hn : k + n ≤ screenSize)
    (h : ∀ i, i < k + n →
      linePos (c.states c.current) i < 2000 ∨ (c.states c.current).inputStartY = 0) :
    ∃ c', forUp (drawTyped fit) k n c = .ok () c' ∧ Touches SameStart c c' := by
  apply forUp_total (fun _ d => Touches SameStart c d)
  · exact startFrame.refl c
  · intro i d _ hi ht
    have hpos : linePos (d.states d.current) i < 2000 ∨ (d.states d.current).inputStartY = 0 := by
      rw [ht.keep_cur.linePos, ht.keep_cur.startY]
      exact h i hi
    obtain ⟨d', hr, ht'⟩ := drawTyped_stays hfit (by omega) hpos
    exact ⟨d', hr, startFrame.trans ht ht'⟩

theorem redraw_stays (hfit : Stays fit) (hline : LineOk (c.states c.current))
    (h : linePos (c.states c.current) (c.states c.current).inputLength < 2000 ∨
      (c.states c.current).inputStartY = 0) :
    ∃ c', redraw fit c = .ok () c' ∧ Touches SameStart c c' := by
  obtain ⟨hk, hL⟩ := hline
  obtain ⟨c₁, hr₁, ht₁⟩ := redraw_loop (c := c) hfit (k := (c.states c.current).inputCursor)
    (n := (c.states c.current).inputLength - (c.states c.current).inputCursor) (by omega)
    (fun i hi => h.imp_left (Nat.lt_of_le_of_lt (linePos_mono (by omega))))
  have hcur₁ := ht₁.keep_cur
  obtain ⟨c₂, hr₂, ht₂⟩ := eraseEnd_stays (c := c₁) hfit (by
    rw [hcur₁.linePos, hcur₁.startY, hcur₁.length]
    exact h)
  refine ⟨c₂, ?_, startFrame.trans ht₁ ht₂⟩
  unfold redraw
  rw [cur_bind, bind_of_ok hr₁]
  exact hr₂

/-- The start of the line has moved up until the line ends on the screen. -/
structure MovedUp (s s' : ScreenState) : Prop where
  startX : s'.inputStartX = s.inputStartX
  startY : s'.inputStartY ≤ s.inputStartY
  length : s'.inputLength = s.inputLength
  cursor : s'.inputCursor = s.inputCursor
  room : linePos s' s'.inputLength < 2000 ∨ s'.inputStartY = 0

theorem SameStart.movedUp {s s' : ScreenState} (h : SameStart s s')
    (hroom : Kfs.linePos s s.inputLength < 2000 ∨ s.inputStartY = 0) : MovedUp s s' := by
  refine ⟨h.startX, Nat.le_of_eq h.startY, h.length, h.cursor, ?_⟩
  rw [h.linePos, h.length, h.startY]
  exact hroom

theorem SameStart.then_up {s s' s'' : ScreenState} (h : SameStart s s') (h' : MovedUp s' s'') :
    MovedUp s s'' where
  startX := h'.startX.trans h.startX
  startY := h'.startY.trans (Nat.le_of_eq h.startY)
  length := h'.length.trans h.length
  cursor := h'.cursor.trans h.cursor
  room := h'.room

/-- Erasing the cell after a line that has just grown moves the start up if need be. -/
theorem eraseEnd_anchors {L : Nat} (hL : (c.states c.current).inputLength = L + 1)
    (h : linePos (c.states c.current) L < 2000 ∨ (c.states c.current).inputStartY = 0) :
    ∃ c', eraseEnd scrollInto c = .ok () c' ∧
      MovedUp (c.states c.current) (c'.states c'.current) := by
  by_cases hstay : linePos (c.states c.current) (L + 1) < 2000 ∨
    (c.states c.current).inputStartY = 0
  · rw [← hL] at hstay
    obtain ⟨c', hr, ht⟩ := eraseEnd_stays scrollInto_stays hstay
    exact ⟨c', hr, ht.keep_cur.movedUp hstay⟩
  · -- the cell after the line is the first one below the screen
    have hend : linePos (c.states c.current) (L + 1) = 2000 := by
      unfold linePos at *
      omega
    obtain ⟨c₁, hr₁, hk₁, hs₁, -⟩ := screenScroll_cells c
    obtain ⟨c₂, hc₂⟩ : ∃ c₂, c₂ = c₁.setCur fun s => { s with inputStartY := s.inputStartY - 1 } :=
      ⟨_, rfl⟩
    have hcur₂ : c₂.states c₂.current = { c.states c.current with
        cursorY := 24
        inputStartY := (c.states c.current).inputStartY - 1 } := by
      rw [hc₂, Console.setCur_current, Console.setCur_self, hk₁, hs₁, Console.setCur_self]
    obtain ⟨c₃, hr₃, hp₃⟩ := vgaWrite_paints 1920 (vgaEntry space (c₂.states c₂.current).color) c₂
    have hcur₃ : c₃.states c₃.current = _ := hp₃.cur.trans hcur₂
    refine ⟨c₃, ?_, ⟨by rw [hcur₃], ?_, by rw [hcur₃], by rw [hcur₃], .inl ?_⟩⟩
    · rw [eraseEnd_scrolls (by rw [hL]; exact hend) (by omega), bind_of_ok hr₁,
        bind_of_ok (setCur_apply _ _), ← hc₂, cur_bind]
      exact hr₃
    · rw [hcur₃]
      exact Nat.sub_le _ 1
    · rw [hcur₃]
      show linePos _ (c.states c.current).inputLength < 2000
      rw [hL]
      unfold linePos at hend ⊢
      dsimp only
      omega

/-- **The redraw after an insert**: the characters up to the old end do not move the start,
the cell after the new end does if need be. -/
theorem redraw_anchors {L : Nat} (hL : (c.states c.current).inputLength = L + 1)
    (hk : (c.states c.current).inputCursor ≤ L) (hsize : L < screenSize)
    (h : linePos (c.states c.current) L < 2000 ∨ (c.states c.current).inputStartY = 0) :
    ∃ c', redraw scrollInto c = .ok () c' ∧
      MovedUp (c.states c.current) (c'.states c'.current) := by
  obtain ⟨c₁, hr₁, ht₁⟩ := redraw_loop (c := c) scrollInto_stays
    (k := (c.states c.current).inputCursor) (n := L + 1 - (c.states c.current).inputCursor)
    (by omega) (fun i hi => h.imp_left (Nat.lt_of_le_of_lt (linePos_mono (by omega))))
  have hcur₁ := ht₁.keep_cur
  obtain ⟨c₂, hr₂, hup⟩ := eraseEnd_anchors (c := c₁) (L := L) (hcur₁.length.trans hL) (by
    rw [hcur₁.linePos, hcur₁.startY]
    exact h)
  refine ⟨c₂, ?_, hcur₁.then_up hup⟩
  unfold redraw
  rw [cur_bind, hL, bind_of_ok hr₁]
  exact hr₂

end Draw

/-! ## The keys -/

section Keys

variable {c : Console} (h : Anchored (c.states c.current))
include h

/-- What a key leaves: an anchored line with a start no lower than before. -/
structure Kept (c c' : Console) : Prop where
  anchored : Anchored (c'.states c'.current)
  startX : (c'.states c'.current).inputStartX = (c.states c.current).inputStartX
  startY : (c'.states c'.current).inputStartY ≤ (c.states c.current).inputStartY

theorem Anchored.kept : Kept c c := ⟨h, rfl, Nat.le_refl _⟩

/-- **An insert** always leaves the cursor on the screen. -/
theorem Anchored.insert {b : BitVec 8} (hb : 32 ≤ b.toNat ∧ b.toNat ≤ 126)
    (hroom : (c.states c.current).inputLength < screenSize - 1) :
    ∃ c', inputInsertCharAtCursor b c = .ok () c' ∧ Kept c c' ∧ OnScreen c' ∧
      (c'.states c'.current).inputLength = (c.states c.current).inputLength + 1 ∧
      (c'.states c'.current).inputCursor = (c.states c.current).inputCursor + 1 := by
  obtain ⟨L, hL⟩ : ∃ L, L = (c.states c.current).inputLength := ⟨_, rfl⟩
  obtain ⟨k, hk⟩ : ∃ k, k = (c.states c.current).inputCursor := ⟨_, rfl⟩
  have hle : k ≤ L := by rw [hL, hk]; exact h.line.1
  rw [← hL] at hroom
  obtain ⟨c₁, hc₁⟩ : ∃ c₁, c₁ = c.setCur fun s => { s with
    buffer := inserted s.buffer L k b
    inputLength := L + 1 } := ⟨_, rfl⟩
  have hcur₁ : c₁.states c₁.current = { c.states c.current with
      buffer := inserted (c.states c.current).buffer L k b
      inputLength := L + 1 } := by
    rw [hc₁, Console.setCur_current, Console.setCur_self]
  obtain ⟨c₂, hr₂, hup⟩ := redraw_anchors (c := c₁) (L := L) (by rw [hcur₁])
    (by rw [hcur₁]; exact hk ▸ hle) (by omega) (by
      rw [hcur₁]
      exact h.char (Nat.le_of_eq hL))
  obtain ⟨hX, hY, hlen₂, hcursor₂, hend⟩ := hup
  rw [hcur₁] at hX hY hlen₂ hcursor₂
  obtain ⟨c₃, hc₃⟩ : ∃ c₃, c₃ = c₂.setCur fun s => { s with inputCursor := s.inputCursor + 1 } :=
    ⟨_, rfl⟩
  have hcur₃ : c₃.states c₃.current = { c₂.states c₂.current with inputCursor := k + 1 } := by
    rw [hc₃, Console.setCur_current, Console.setCur_self, hcursor₂, hk]
  have hend₃ : linePos (c₃.states c₃.current) (L + 1) < 2000 ∨
      (c₃.states c₃.current).inputStartY = 0 := by
    rw [hlen₂] at hend
    rw [hcur₃]
    exact hend
  obtain ⟨c₄, hr₄, ht₄, hon⟩ := placeCursor_clamped (c := c₃) (by
    rw [show (c₃.states c₃.current).inputCursor = k + 1 by rw [hcur₃]]
    exact hend₃.imp_left (Nat.lt_of_le_of_lt (linePos_mono (by omega))))
  have hcur₄ := ht₄.keep_cur
  have hlen₄ : (c₄.states c₄.current).inputLength = L + 1 := by
    rw [hcur₄.length, hcur₃]
    exact hlen₂
  have hcursor₄ : (c₄.states c₄.current).inputCursor = k + 1 := by
    rw [hcur₄.cursor, hcur₃]
  have hX₄ : (c₄.states c₄.current).inputStartX = (c.states c.current).inputStartX := by
    rw [hcur₄.startX, hcur₃]
    exact hX
  refine ⟨c₄, ?_, ⟨⟨⟨?_, ?_⟩, ?_, ?_⟩, hX₄, ?_⟩, hon, by rw [hlen₄, hL], by rw [hcursor₄, hk]⟩
  · rw [insert_eq ⟨hL.symm, hk.symm⟩ hle hroom hb, ← hc₁, bind_of_ok hr₂,
      bind_of_ok (setCur_apply _ _), ← hc₃]
    exact hr₄
  · rw [hcursor₄, hlen₄]
    omega
  · rw [hlen₄]
    omega
  · rw [hX₄]
    exact h.column
  · rw [hlen₄, hcur₄.linePos, hcur₄.startY]
    exact hend₃
  · rw [hcur₄.startY, hcur₃]
    exact hY

/-- **A delete** does when its position is. -/
theorem Anchored.delete (hpos : 0 < (c.states c.current).inputCursor) :
    ∃ c', inputDeleteCharAtCursor c = .ok () c' ∧ Kept c c' ∧
      (OnScreen c' ↔
        linePos (c.states c.current) ((c.states c.current).inputCursor - 1) < 2000) := by
  obtain ⟨L, hL⟩ : ∃ L, L = (c.states c.current).inputLength := ⟨_, rfl⟩
  obtain ⟨k, hk⟩ : ∃ k, k = (c.states c.current).inputCursor := ⟨_, rfl⟩
  have hle : k ≤ L := by rw [hL, hk]; exact h.line.1
  have hsize : L < screenSize := by rw [hL]; exact h.line.2
  rw [← hk] at hpos
  obtain ⟨c₁, hc₁⟩ : ∃ c₁, c₁ = c.setCur fun s => { s with
    buffer := deleted s.buffer L k
    inputLength := L - 1
    inputCursor := k - 1 } := ⟨_, rfl⟩
  have hcur₁ : c₁.states c₁.current = { c.states c.current with
      buffer := deleted (c.states c.current).buffer L k
      inputLength := L - 1
      inputCursor := k - 1 } := by
    rw [hc₁, Console.setCur_current, Console.setCur_self]
  have hroom₁ : linePos (c₁.states c₁.current) (L - 1) < 2000 ∨
      (c₁.states c₁.current).inputStartY = 0 := by
    rw [hcur₁]
    exact h.char (by omega)
  obtain ⟨c₂, hr₂, ht₂⟩ := redraw_stays (c := c₁) pure_stays
    (by rw [hcur₁]; exact ⟨by dsimp only; omega, by dsimp only; omega⟩)
    (by rw [show (c₁.states c₁.current).inputLength = L - 1 by rw [hcur₁]]; exact hroom₁)
  obtain ⟨c₃, hr₃, ht₃, hon⟩ := placeCursor_pure (c := c₂)
  have hcur₂ := ht₂.keep_cur
  have hcur₃ := sameStart_frame.trans hcur₂ ht₃.keep_cur
  have hlen₃ : (c₃.states c₃.current).inputLength = L - 1 := by rw [hcur₃.length, hcur₁]
  have hcursor₁ : (c₁.states c₁.current).inputCursor = k - 1 := by rw [hcur₁]
  refine ⟨c₃, ?_, ⟨⟨⟨?_, ?_⟩, ?_, ?_⟩, ?_, ?_⟩, ?_⟩
  · rw [delete_eq ⟨hL.symm, hk.symm⟩ hle hsize hpos, ← hc₁, bind_of_ok hr₂]
    exact hr₃
  · rw [hcur₃.cursor, hlen₃, hcursor₁]
    omega
  · rw [hlen₃]
    omega
  · rw [hcur₃.startX, hcur₁]
    exact h.column
  · rw [hlen₃, hcur₃.linePos, hcur₃.startY]
    exact hroom₁
  · rw [hcur₃.startX, hcur₁]
  · rw [hcur₃.startY, hcur₁]
  · rw [hon, hcur₂.linePos, hcur₂.cursor, hcursor₁, ← hk, hcur₁]
    rfl

/-- **A move** to `k` does when the position of `k` is. -/
theorem Anchored.move {k : Nat} (hk : k ≤ (c.states c.current).inputLength)
    {f : ScreenState → ScreenState}
    (hf : f (c.states c.current) = { c.states c.current with inputCursor := k }) :
    ∃ c', (do setCur f; placeCursor pure) c = .ok () c' ∧ Kept c c' ∧
      (OnScreen c' ↔ linePos (c.states c.current) k < 2000) := by
  obtain ⟨c₁, hc₁⟩ : ∃ c₁, c₁ = c.setCur fun s => { s with inputCursor := k } := ⟨_, rfl⟩
  have hcur₁ : c₁.states c₁.current = { c.states c.current with inputCursor := k } := by
    rw [hc₁, Console.setCur_current, Console.setCur_self]
  have hpos₁ : ∀ i, linePos (c₁.states c₁.current) i = linePos (c.states c.current) i := by
    intro i
    rw [hcur₁]
    rfl
  obtain ⟨c₂, hr₂, ht₂, hon⟩ := placeCursor_pure (c := c₁)
  have hcur₂ := ht₂.keep_cur
  refine ⟨c₂, ?_, ⟨⟨⟨?_, ?_⟩, ?_, ?_⟩, ?_, ?_⟩, ?_⟩
  · rw [move_apply hf, bind_of_ok (setCur_apply _ _), ← hc₁]
    exact hr₂
  · rw [hcur₂.cursor, hcur₂.length, hcur₁]
    exact hk
  · rw [hcur₂.length, hcur₁]
    exact h.line.2
  · rw [hcur₂.startX, hcur₁]
    exact h.column
  · rw [hcur₂.length, hcur₂.linePos, hcur₂.startY, hpos₁, hcur₁]
    exact h.room
  · rw [hcur₂.startX, hcur₁]
  · rw [hcur₂.startY, hcur₁]
  · rw [hon, hpos₁, hcur₁]

/-- **Every key** returns and keeps the line anchored; from the screen it leaves the cursor
there exactly when it fits. -/
theorem Anchored.key (op : EditOp) :
    ∃ c', EditStep c op c' ∧ Kept c c' ∧ (OnScreen c → (OnScreen c' ↔ CursorFits c op)) := by
  unfold EditStep
  have hstill : ∀ {p : Prop}, op.run c = .ok () c → p →
      ∃ c', op.run c = .ok () c' ∧ Kept c c' ∧ (OnScreen c → (OnScreen c' ↔ p)) :=
    fun hr hp => ⟨c, hr, h.kept, fun hon => iff_of_true hon hp⟩
  cases op with
  | insert b =>
    by_cases hb : 32 ≤ b.toNat ∧ b.toNat ≤ 126
    swap
    · exact hstill (insert_refused (.inl hb)) trivial
    by_cases hroom : (c.states c.current).inputLength < screenSize - 1
    · obtain ⟨c', hr, hkept, hon', -⟩ := h.insert hb hroom
      exact ⟨c', hr, hkept, fun _ => iff_of_true hon' trivial⟩
    · exact hstill (insert_refused (.inr hroom)) trivial
  | delete =>
    by_cases hpos : 0 < (c.states c.current).inputCursor ∧ 0 < (c.states c.current).inputLength
    · obtain ⟨c', hr, hkept, hiff⟩ := h.delete hpos.1
      exact ⟨c', hr, hkept, fun _ => hiff.trans ⟨fun hlt _ => hlt, fun hall => hall hpos⟩⟩
    · exact hstill (delete_refused hpos) fun hc => absurd hc hpos
  | left =>
    by_cases hpos : 0 < (c.states c.current).inputCursor
    · obtain ⟨c', hr, hkept, hiff⟩ := h.move (k := (c.states c.current).inputCursor - 1)
        (f := fun s => { s with inputCursor := s.inputCursor - 1 })
        (Nat.le_trans (Nat.sub_le _ 1) h.line.1) rfl
      exact ⟨c', (left_eq hpos).trans hr, hkept,
        fun _ => hiff.trans ⟨fun hlt _ => hlt, fun hall => hall hpos⟩⟩
    · exact hstill (left_refused hpos) fun hc => absurd hc hpos
  | right =>
    by_cases hpos : (c.states c.current).inputCursor < (c.states c.current).inputLength
    · obtain ⟨c', hr, hkept, hiff⟩ := h.move (k := (c.states c.current).inputCursor + 1)
        (f := fun s => { s with inputCursor := s.inputCursor + 1 }) hpos rfl
      exact ⟨c', (right_eq hpos).trans hr, hkept,
        fun _ => hiff.trans ⟨fun hlt _ => hlt, fun hall => hall hpos⟩⟩
    · exact hstill (right_refused hpos) fun hc => absurd hc hpos

end Keys

/-! ## Sequences of keys -/

theorem EditStep.anchored {c c' : Console} {op : EditOp} (h : Anchored (c.states c.current))
    (hs : EditStep c op c') : Anchored (c'.states c'.current) ∧
      (OnScreen c → (OnScreen c' ↔ CursorFits c op)) := by
  obtain ⟨d, hr, hkept, hiff⟩ := h.key op
  obtain rfl : c' = d := by
    injection hs.symm.trans hr
  exact ⟨hkept.anchored, hiff⟩

theorem Anchored.keys : ∀ (ops : List EditOp) {c : Console}, Anchored (c.states c.current) →
    ∃ tr, tr.map Prod.fst = ops ∧ Trace EditStep c tr
  | [], _, _ => ⟨[], rfl, trivial⟩
  | op :: ops, c, h => by
    obtain ⟨c₁, hs, hkept, -⟩ := h.key op
    obtain ⟨tr, hops, ht⟩ := Anchored.keys ops hkept.anchored
    exact ⟨(op, c₁) :: tr, congrArg (op :: ·) hops, hs, ht⟩

/-- **When the cursor stays on the screen.** From a prompt on the screen every sequence of
keys runs, and the cursor is on the screen after every key if and only if every delete
and every move puts it before the end of the last cell. -/
theorem cursor_on_screen {c : Console} (h : AtPrompt (c.states c.current)) (ops : List EditOp) :
    ∃ tr, tr.map Prod.fst = ops ∧ Trace EditStep c tr ∧
      ((∀ p ∈ tr, OnScreen p.2) ↔ Meets CursorFits c tr) := by
  obtain ⟨tr, hops, ht⟩ := h.anchored.keys ops
  refine ⟨tr, hops, ht, ?_⟩
  apply Trace.states_iff_meets (I := fun c : Console => Anchored (c.states c.current))
    (P := OnScreen)
    _ h.anchored _ ht
  · intro c op c' hI hP hs
    obtain ⟨hI', hiff⟩ := hs.anchored hI
    exact ⟨hI', hiff hP⟩
  · obtain ⟨h1, h2, -, -, h5, h6⟩ := h
    exact ⟨by rw [h6]; exact h2, by rw [h5]; exact h1⟩

/-- An empty line at column `x` of row `y` on a blank screen. -/
def promptAt (x y : Nat) : Console :=
  ⟨fun _ => ⟨fun _ => 0, x, y, 0, 0, x, y, 7⟩, 0, ⟨fun _ => 0, []⟩, 0⟩

theorem promptAt_ok {x y : Nat} (hx : x < 80) (hy : y < 25) :
    AtPrompt ((promptAt x y).states (promptAt x y).current) := ⟨hx, hy, rfl, rfl, rfl, rfl⟩

/-- A `k` typed in the last cell of the screen. -/
theorem cursor_on_screen_corner : ∃ tr, tr.map Prod.fst = [EditOp.insert 107] ∧
    Trace EditStep (promptAt 79 24) tr ∧ ∀ p ∈ tr, OnScreen p.2 := by
  obtain ⟨tr, hops, ht, hiff⟩ :=
    cursor_on_screen (promptAt_ok (show 79 < 80 by decide) (show 24 < 25 by decide)) [.insert 107]
  refine ⟨tr, hops, ht, hiff.mpr ?_⟩
  obtain ⟨⟨op, c₁⟩, tr, rfl, rfl, hnil⟩ := List.map_eq_cons_iff.mp hops
  obtain rfl := List.map_eq_nil_iff.mp hnil
  exact ⟨trivial, trivial⟩

/-- Typing on from `L` characters to 2001 and then moving left, on a line from the top left
corner. -/
theorem typed_past_screen : ∀ (n : Nat) {c : Console} {L : Nat}, L + n = 2001 →
    Anchored (c.states c.current) → LineAt L L (c.states c.current) →
    (c.states c.current).inputStartX = 0 → (c.states c.current).inputStartY = 0 →
    ∃ tr, tr.map Prod.fst = List.replicate n (.insert 97) ++ [.left] ∧ Trace EditStep c tr ∧
      ∃ p ∈ tr, ¬ OnScreen p.2
  | 0, c, L, hL, h, hat, hx, hy => by
    obtain ⟨c', hr, -, hiff⟩ := h.move (k := (c.states c.current).inputCursor - 1)
      (f := fun s => { s with inputCursor := s.inputCursor - 1 })
      (Nat.le_trans (Nat.sub_le _ 1) h.line.1) rfl
    have hs : EditStep c .left c' := (left_eq (by rw [hat.2]; omega)).trans hr
    refine ⟨[(.left, c')], rfl, ⟨hs, trivial⟩, _, List.mem_singleton_self _, ?_⟩
    rw [hiff, hat.2]
    unfold linePos
    omega
  | n + 1, c, L, hL, h, hat, hx, hy => by
    obtain ⟨c₁, hr, hkept, -, hlen, hcursor⟩ := h.insert (b := 97) (by decide) (by
      rw [hat.1]
      simp only [screenSize, screenWidth, screenHeight]
      omega)
    obtain ⟨tr, hops, ht, p, hp, hout⟩ := typed_past_screen n (c := c₁) (L := L + 1) (by omega)
      hkept.anchored ⟨hlen.trans (by rw [hat.1]), hcursor.trans (by rw [hat.2])⟩
      (hkept.startX.trans hx) (by have := hkept.startY; omega)
    exact ⟨(.insert 97, c₁) :: tr, congrArg (EditOp.insert 97 :: ·) hops, ⟨hr, ht⟩, p,
      List.mem_cons_of_mem _ hp, hout⟩

/-- From the top left corner 2001 characters and a move to the left put the cursor below the
screen. -/
theorem cursor_leaves_screen : AtPrompt ((promptAt 0 0).states (promptAt 0 0).current) ∧
    ∃ tr, tr.map Prod.fst = List.replicate 2001 (EditOp.insert 97) ++ [.left] ∧
      Trace EditStep (promptAt 0 0) tr ∧ ∃ p ∈ tr, ¬ OnScreen p.2 := by
  have hprompt := promptAt_ok (show 0 < 80 by decide) (show 0 < 25 by decide)
  exact ⟨hprompt, typed_past_screen 2001 (Nat.zero_add 2001) hprompt.anchored ⟨rfl, rfl⟩ rfl rfl⟩

end Kfs
