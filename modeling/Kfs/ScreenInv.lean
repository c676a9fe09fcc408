import Kfs.Screen
import Kfs.Lib.Runs

/-!
# What the screen code touches

Everything but `switch_screen` works on the current screen only, and the code
that draws leaves its typed line alone. `Touches keep` is a step that leaves the
other screens as they are and relates the current one by `keep`; the code is
total for it, so no index ever leaves `buffer`, as long as every line has its
cursor inside and room for its NUL (`LineOk`).
-/

namespace Kfs

open Kfs.Lib

/-- The other screens are as before, the current one is related by `keep`. -/
structure Touches (keep : ScreenState → ScreenState → Prop) (c c' : Console) : Prop where
  current : c'.current = c.current
  others : ∀ j, j ≠ c.current → c'.states j = c.states j
  keep : keep (c.states c.current) (c'.states c.current)

/-- The typed line is the same: its text, its length and its cursor. -/
def SameText (s s' : ScreenState) : Prop :=
  s'.buffer = s.buffer ∧ s'.inputLength = s.inputLength ∧ s'.inputCursor = s.inputCursor

/-- The typed line has the same length and cursor. -/
def SameCounts (s s' : ScreenState) : Prop :=
  s'.inputLength = s.inputLength ∧ s'.inputCursor = s.inputCursor

theorem sameText_frame : Frame SameText where
  refl _ := ⟨rfl, rfl, rfl⟩
  trans h h' := ⟨h'.1.trans h.1, h'.2.1.trans h.2.1, h'.2.2.trans h.2.2⟩

theorem sameCounts_frame : Frame SameCounts where
  refl _ := ⟨rfl, rfl⟩
  trans h h' := ⟨h'.1.trans h.1, h'.2.trans h.2⟩

section Touches

variable {keep : ScreenState → ScreenState → Prop}

theorem touches_frame (hk : Frame keep) : Frame (Touches keep) where
  refl c := ⟨rfl, fun _ _ => rfl, hk.refl _⟩
  trans {c d e} h h' := by
    refine ⟨h'.current.trans h.current, fun j hj => ?_, hk.trans h.keep ?_⟩
    · rw [h'.others j (by rw [h.current]; exact hj), h.others j hj]
    · have := h'.keep
      rwa [h.current] at this

theorem Touches.mono {keep' : ScreenState → ScreenState → Prop} {c c' : Console}
    (h : Touches keep c c') (hk : ∀ s s', keep s s' → keep' s s') : Touches keep' c c' :=
  ⟨h.current, h.others, hk _ _ h.keep⟩

variable (hk : Frame keep)
include hk

theorem cur_total : Total (Touches keep) cur :=
  .bind (touches_frame hk) (.get (touches_frame hk)) fun _ => .pure (touches_frame hk) _

theorem vgaRead_total (i : Nat) : Total (Touches keep) (vgaRead i) :=
  .bind (touches_frame hk) (.get (touches_frame hk)) fun _ => .pure (touches_frame hk) _

theorem vgaWrite_total (i : Nat) (e : BitVec 16) : Total (Touches keep) (vgaWrite i e) :=
  .modify fun _ => ⟨rfl, fun _ _ => rfl, hk.refl _⟩

theorem updateHardwareCursor_total : Total (Touches keep) updateHardwareCursor :=
  .modify fun _ => ⟨rfl, fun _ _ => rfl, hk.refl _⟩

omit hk in
theorem setCur_total {f : ScreenState → ScreenState} (h : ∀ s, keep s (f s)) :
    Total (Touches keep) (setCur f) := by
  refine .modify fun c => ⟨rfl, fun j hj => ?_, ?_⟩
  · exact Function.update_of_ne hj _ _
  · show keep _ (Function.update c.states c.current _ c.current)
    rw [Function.update_self]
    exact h _

theorem paint_total (i : Nat) (uc : BitVec 8) :
    Total (Touches keep) (do vgaWrite i (vgaEntry uc (← cur).color)) :=
  .bind (touches_frame hk) (cur_total hk) fun _ => vgaWrite_total hk _ _

end Touches

/-! ## Drawing keeps the line -/

theorem drawing : Frame (Touches SameText) := touches_frame sameText_frame

theorem setCur_draws {f : ScreenState → ScreenState} (h : ∀ s, SameText s (f s)) :
    Total (Touches SameText) (setCur f) := setCur_total h

theorem updateHardwareCursor_draws : Total (Touches SameText) updateHardwareCursor :=
  updateHardwareCursor_total sameText_frame

theorem curThen {α : Type} {f : ScreenState → C α} (h : ∀ s, Total (Touches SameText) (f s)) :
    Total (Touches SameText) (cur >>= f) := .bind drawing (cur_total sameText_frame) h

theorem screenClear_draws : Total (Touches SameText) screenClear :=
  .bind drawing (.forUp drawing _ fun _ _ _ => paint_total sameText_frame _ _) fun _ =>
    .bind drawing (setCur_draws fun _ => ⟨rfl, rfl, rfl⟩) fun _ => updateHardwareCursor_draws

theorem screenScroll_draws : Total (Touches SameText) screenScroll := by
  refine .bind drawing (.forUp drawing _ fun _ _ _ => .forUp drawing _ fun _ _ _ => ?_) fun _ => ?_
  · exact .bind drawing (vgaRead_total sameText_frame _) fun _ => vgaWrite_total sameText_frame _ _
  · exact .bind drawing (.forUp drawing _ fun _ _ _ => paint_total sameText_frame _ _) fun _ =>
      .bind drawing (setCur_draws fun _ => ⟨rfl, rfl, rfl⟩) fun _ => updateHardwareCursor_draws

theorem screenSetColor_draws (fg bg : VgaColor) : Total (Touches SameText) (screenSetColor fg bg) :=
  .bind drawing (setCur_draws fun _ => ⟨rfl, rfl, rfl⟩) fun _ => updateHardwareCursor_draws

theorem screenPutchar_draws (c : BitVec 8) : Total (Touches SameText) (screenPutchar c) := by
  have hend : Total (Touches SameText) (do
      if (← cur).cursorX > screenWidth then
        setCur fun s => { s with cursorX := 0, cursorY := s.cursorY + 1 }
      if (← cur).cursorY ≥ screenHeight then
        screenScroll
      updateHardwareCursor) := by
    have hscroll : Total (Touches SameText) (do
        if (← cur).cursorY ≥ screenHeight then
          screenScroll
        updateHardwareCursor) :=
      curThen fun _ => .ite (fun _ => .bind drawing screenScroll_draws fun _ =>
        updateHardwareCursor_draws) fun _ => updateHardwareCursor_draws
    exact curThen fun _ => .ite (fun _ => .bind drawing (setCur_draws fun _ => ⟨rfl, rfl, rfl⟩)
      fun _ => hscroll) fun _ => hscroll
  refine curThen fun s => .ite (fun _ => ?_) fun _ => .ite (fun _ => .ite (fun _ => ?_) fun _ => ?_)
    fun _ => ?_
  · exact .bind drawing (setCur_draws fun _ => ⟨rfl, rfl, rfl⟩) fun _ => hend
  · exact .bind drawing (setCur_draws fun _ => ⟨rfl, rfl, rfl⟩) fun _ =>
      .bind drawing (vgaWrite_total sameText_frame _ _) fun _ => hend
  · exact hend
  · exact .bind drawing (vgaWrite_total sameText_frame _ _) fun _ =>
      .bind drawing (setCur_draws fun _ => ⟨rfl, rfl, rfl⟩) fun _ => hend

theorem screenPutstring_draws : ∀ str, Total (Touches SameText) (screenPutstring str)
  | [] => .pure drawing ()
  | c :: str => .bind drawing (screenPutchar_draws c) fun _ => screenPutstring_draws str

theorem screenSetCursor_draws (x y : Nat) : Total (Touches SameText) (screenSetCursor x y) :=
  .ite (fun _ => .bind drawing (setCur_draws fun _ => ⟨rfl, rfl, rfl⟩) fun _ =>
    updateHardwareCursor_draws) fun _ => .pure drawing ()

theorem runOut_draws : ∀ out, Total (Touches SameText) (runOut out)
  | [] => .pure drawing ()
  | .char c :: out => .bind drawing (screenPutchar_draws c) fun _ => runOut_draws out
  | .clear :: out => .bind drawing screenClear_draws fun _ => runOut_draws out

theorem scrollInto_draws (y : Nat) : Total (Touches SameText) (scrollInto y) := by
  refine .ite (fun _ => .bind drawing screenScroll_draws fun _ => curThen fun _ => ?_)
    fun _ => .pure drawing _
  exact .ite (fun _ => .bind drawing (setCur_draws fun _ => ⟨rfl, rfl, rfl⟩) fun _ =>
    .pure drawing _) fun _ => .pure drawing _

/-! ## The input line -/

/-- The cursor is inside the line, and there is room for a NUL after it. -/
def LineOk (s : ScreenState) : Prop := s.inputCursor ≤ s.inputLength ∧ s.inputLength < screenSize

theorem bufGet_draws {i : Nat} (hi : i < screenSize) : Total (Touches SameText) (bufGet i) := by
  unfold bufGet
  rw [if_pos hi]
  exact curThen fun _ => .pure drawing _

theorem bufSet_total {i : Nat} (hi : i < screenSize) (b : BitVec 8) :
    Total (Touches SameCounts) (bufSet i b) := by
  unfold bufSet
  rw [if_pos hi]
  exact setCur_total fun _ => ⟨rfl, rfl⟩

theorem editing : Frame (Touches SameCounts) := touches_frame sameCounts_frame

theorem drawTyped_draws {fit : Nat → C Nat} (hfit : ∀ y, Total (Touches SameText) (fit y)) {i : Nat}
    (hi : i < screenSize) : Total (Touches SameText) (drawTyped fit i) :=
  curThen fun _ => .bind drawing (hfit _) fun _ => .ite
    (fun _ => .bind drawing (bufGet_draws hi) fun _ => paint_total sameText_frame _ _)
    fun _ => .pure drawing ()

theorem eraseEnd_draws {fit : Nat → C Nat} (hfit : ∀ y, Total (Touches SameText) (fit y)) :
    Total (Touches SameText) (eraseEnd fit) :=
  curThen fun _ => .bind drawing (hfit _) fun _ => .ite
    (fun _ => paint_total sameText_frame _ _) fun _ => .pure drawing ()

theorem placeCursor_draws {fit : Nat → C Nat} (hfit : ∀ y, Total (Touches SameText) (fit y)) :
    Total (Touches SameText) (placeCursor fit) :=
  curThen fun _ => .bind drawing (hfit _) fun _ => .bind drawing
    (setCur_draws fun _ => ⟨rfl, rfl, rfl⟩) fun _ => updateHardwareCursor_draws

section Line

variable {c : Console}

theorem cur_bind {α : Type} (f : ScreenState → C α) (c : Console) :
    (cur >>= f) c = f (c.states c.current) c := rfl

def Console.setCur (c : Console) (f : ScreenState → ScreenState) : Console :=
  { c with states := Function.update c.states c.current (f (c.states c.current)) }

theorem setCur_apply (f : ScreenState → ScreenState) (c : Console) :
    setCur f c = .ok () (c.setCur f) := rfl

@[simp] theorem Console.setCur_current (c : Console) (f : ScreenState → ScreenState) :
    (c.setCur f).current = c.current := rfl

@[simp] theorem Console.setCur_self (c : Console) (f : ScreenState → ScreenState) :
    (c.setCur f).states c.current = f (c.states c.current) := Function.update_self _ _ _

theorem Console.setCur_other (c : Console) (f : ScreenState → ScreenState) {j : Fin maxScreens}
    (hj : j ≠ c.current) : (c.setCur f).states j = c.states j := Function.update_of_ne hj _ _

theorem setCur_touches (c : Console) (f : ScreenState → ScreenState) :
    Touches (fun s s' => s' = f s) c (c.setCur f) :=
  ⟨rfl, fun _ hj => c.setCur_other f hj, c.setCur_self f⟩

@[simp] theorem Console.setCur_setCur (c : Console) (f g : ScreenState → ScreenState) :
    (c.setCur f).setCur g = c.setCur fun s => g (f s) := by
  unfold Console.setCur
  simp only [Function.update_self, Function.update_idem]

theorem Console.setCur_congr {c : Console} {f g : ScreenState → ScreenState}
    (h : f (c.states c.current) = g (c.states c.current)) : c.setCur f = c.setCur g := by
  unfold Console.setCur
  rw [h]

theorem Console.setCur_same {c : Console} {f : ScreenState → ScreenState}
    (h : f (c.states c.current) = c.states c.current) : c.setCur f = c := by
  unfold Console.setCur
  rw [h, Function.update_eq_self]

theorem bufGet_apply {i : Nat} (hi : i < screenSize) (c : Console) :
    bufGet i c = .ok ((c.states c.current).buffer i) c := by
  unfold bufGet
  rw [if_pos hi]
  rfl

theorem bufSet_apply {i : Nat} (hi : i < screenSize) (b : BitVec 8) (c : Console) :
    bufSet i b c = .ok () (c.setCur fun s => { s with buffer := storeByte s.buffer i b }) := by
  unfold bufSet
  rw [if_pos hi]
  rfl

/-- A buffer whose bytes `k, …, L - 1` moved up by one. -/
def movedUp (buf : Mem) (L k : Nat) : Mem := fun i => if k < i ∧ i ≤ L then buf (i - 1) else buf i

/-- A buffer whose bytes `k, …, L - 1` moved down by one. -/
def movedDown (buf : Mem) (L k : Nat) : Mem :=
  fun i => if k - 1 ≤ i ∧ i < L - 1 then buf (i + 1) else buf i

theorem bufCopy_apply {i j : Nat} (hi : i < screenSize) (hj : j < screenSize) (c : Console)
    (buf : Mem) :
    (do bufSet i (← bufGet j) : C Unit) (c.setCur fun s => { s with buffer := buf }) =
      .ok () (c.setCur fun s => { s with buffer := storeByte buf i (buf j) }) := by
  rw [bind_of_ok (bufGet_apply hj _), bufSet_apply hi, Console.setCur_current, Console.setCur_self,
    Console.setCur_setCur]

/-- **The loop that makes room**, from the end of the line down to the cursor. -/
theorem shiftRight_apply {L k : Nat} (hL : (c.states c.current).inputLength = L)
    (hk : (c.states c.current).inputCursor = k) (hkL : k ≤ L) (hlt : L < screenSize) :
    shiftRight c = .ok () (c.setCur fun s => { s with buffer := movedUp s.buffer L k }) := by
  obtain ⟨buf, hbuf⟩ : ∃ buf, buf = (c.states c.current).buffer := ⟨_, rfl⟩
  have hloop := forUp_total (f := fun j => do
      let i := L - j
      bufSet i (← bufGet (i - 1)))
    (fun j d => d = c.setCur fun s => { s with buffer := movedUp buf L (L - j) })
    (l := 0) (n := L - k) (s := c) ?_ ?_
  · obtain ⟨d, hr, hd⟩ := hloop
    unfold shiftRight
    rw [cur_bind, hL, hk, hr, hd, show L - (0 + (L - k)) = k by omega, hbuf]
    exact congrArg (EStateM.Result.ok ()) (Console.setCur_congr rfl)
  · have hsame : movedUp buf L (L - 0) = buf := by
      funext i
      exact if_neg (by omega)
    rw [hsame, hbuf]
    exact (Console.setCur_same rfl).symm
  · rintro j _ - hj rfl
    refine ⟨_, bufCopy_apply (by omega) (by omega) c _, ?_⟩
    have hstep : storeByte (movedUp buf L (L - j)) (L - j) (movedUp buf L (L - j) (L - j - 1)) =
        movedUp buf L (L - (j + 1)) := by
      funext i
      unfold storeByte movedUp
      by_cases hi : i = L - j
      · rw [if_pos hi, if_neg (by omega), if_pos (by omega), hi]
      · rw [if_neg hi]
        by_cases hrange : L - j < i ∧ i ≤ L
        · rw [if_pos hrange, if_pos (by omega)]
        · rw [if_neg hrange, if_neg (by omega)]
    rw [hstep]

/-- **The loop that closes the gap**, from the cursor up to the end of the line. -/
theorem shiftLeft_apply {L k : Nat} (hL : (c.states c.current).inputLength = L)
    (hk : (c.states c.current).inputCursor = k) (hkL : k ≤ L) (hlt : L < screenSize)
    (hpos : 0 < k) :
    shiftLeft c = .ok () (c.setCur fun s => { s with buffer := movedDown s.buffer L k }) := by
  obtain ⟨buf, hbuf⟩ : ∃ buf, buf = (c.states c.current).buffer := ⟨_, rfl⟩
  have hloop := forUp_total (f := fun i => do bufSet i (← bufGet (i + 1)))
    (fun i d => d = c.setCur fun s => { s with buffer := movedDown buf (i + 1) k })
    (l := k - 1) (n := L - 1 - (k - 1)) (s := c) ?_ ?_
  · obtain ⟨d, hr, hd⟩ := hloop
    unfold shiftLeft
    rw [cur_bind, hL, hk, hr, hd, show k - 1 + (L - 1 - (k - 1)) + 1 = L by omega, hbuf]
    exact congrArg (EStateM.Result.ok ()) (Console.setCur_congr rfl)
  · have hsame : movedDown buf (k - 1 + 1) k = buf := by
      funext i
      exact if_neg (by omega)
    rw [hsame, hbuf]
    exact (Console.setCur_same rfl).symm
  · rintro i _ hlo hi rfl
    refine ⟨_, bufCopy_apply (by omega) (by omega) c _, ?_⟩
    have hstep : storeByte (movedDown buf (i + 1) k) i (movedDown buf (i + 1) k (i + 1)) =
        movedDown buf (i + 1 + 1) k := by
      funext x
      unfold storeByte movedDown
      by_cases hx : x = i
      · rw [if_pos hx, if_neg (by omega), if_pos (by omega), hx]
      · rw [if_neg hx]
        by_cases hrange : k - 1 ≤ x ∧ x < i + 1 - 1
        · rw [if_pos hrange, if_pos (by omega)]
        · rw [if_neg hrange, if_neg (by omega)]
    rw [hstep]

theorem redraw_ok {fit : Nat → C Nat} (hfit : ∀ y, Total (Touches SameText) (fit y))
    (h : (c.states c.current).inputLength < screenSize) :
    ∃ c', redraw fit c = .ok () c' ∧ Touches SameText c c' := by
  obtain ⟨L, hL⟩ : ∃ L, L = (c.states c.current).inputLength := ⟨_, rfl⟩
  obtain ⟨k, hk⟩ : ∃ k, k = (c.states c.current).inputCursor := ⟨_, rfl⟩
  have hloop : Total (Touches SameText) (do
      forUp (drawTyped fit) k (L - k)
      eraseEnd fit) :=
    .bind drawing (.forUp drawing _ fun _ _ _ => drawTyped_draws hfit (by omega))
      fun _ => eraseEnd_draws hfit
  obtain ⟨_, c', hr, ht⟩ := hloop c
  refine ⟨c', ?_, ht⟩
  unfold redraw
  rw [cur_bind, ← hL, ← hk]
  exact hr

def LineAt (L k : Nat) (s : ScreenState) : Prop := s.inputLength = L ∧ s.inputCursor = k

theorem Touches.followed {P Q : ScreenState → Prop} {keep : ScreenState → ScreenState → Prop}
    {c d e : Console} (h : Touches (fun _ s => P s) c d) (h' : Touches keep d e)
    (hQ : ∀ s s', P s → keep s s' → Q s') : Touches (fun _ s => Q s) c e := by
  refine ⟨h'.current.trans h.current, fun j hj => ?_, hQ _ _ h.keep ?_⟩
  · rw [h'.others j (by rw [h.current]; exact hj), h.others j hj]
  · have := h'.keep
    rwa [h.current] at this

theorem Touches.counts {L k : Nat} {c d e : Console} (h : Touches (fun _ s => LineAt L k s) c d)
    (h' : Touches SameCounts d e) : Touches (fun _ s => LineAt L k s) c e :=
  h.followed h' fun _ _ hs hss => ⟨hss.1.trans hs.1, hss.2.trans hs.2⟩

theorem Touches.draws {L k : Nat} {c d e : Console} (h : Touches (fun _ s => LineAt L k s) c d)
    (h' : Touches SameText d e) : Touches (fun _ s => LineAt L k s) c e :=
  h.counts (h'.mono fun _ _ h => h.2)

theorem Touches.length {L k : Nat} {c d : Console} (h : Touches (fun _ s => LineAt L k s) c d) :
    (d.states d.current).inputLength = L := by
  rw [h.current]
  exact h.keep.1

/-- The buffer after `b` was inserted at `k` into a line of `L` bytes. -/
def inserted (buf : Mem) (L k : Nat) (b : BitVec 8) : Mem :=
  storeByte (storeByte (movedUp buf L k) k b) (L + 1) 0

/-- The buffer after the byte before `k` was deleted from a line of `L` bytes. -/
def deleted (buf : Mem) (L k : Nat) : Mem := storeByte (movedDown buf L k) (L - 1) 0

/-- **An insert** that has room edits the line, and then draws it. -/
theorem insert_eq {L k : Nat} (h : LineAt L k (c.states c.current)) (hk : k ≤ L)
    (hL : L < screenSize - 1) {b : BitVec 8} (hb : 32 ≤ b.toNat ∧ b.toNat ≤ 126) :
    inputInsertCharAtCursor b c = (do
      redraw scrollInto
      setCur fun s => { s with inputCursor := s.inputCursor + 1 }
      placeCursor scrollInto : C Unit) (c.setCur fun s => { s with
        buffer := inserted s.buffer L k b
        inputLength := L + 1 }) := by
  unfold inputInsertCharAtCursor
  rw [if_pos hb, cur_bind, h.1, if_pos hL, h.2, bind_of_ok (shiftRight_apply h.1 h.2 hk (by omega)),
    bind_of_ok (bufSet_apply (by omega) b _), bind_of_ok (setCur_apply _ _),
    bind_of_ok (bufSet_apply (by omega) 0 _)]
  simp only [Console.setCur_setCur]
  refine congrArg _ (Console.setCur_congr ?_)
  rw [h.1]
  rfl

/-- **A delete** with a byte before the cursor edits the line, and then draws it. -/
theorem delete_eq {L k : Nat} (h : LineAt L k (c.states c.current)) (hk : k ≤ L)
    (hL : L < screenSize) (hpos : 0 < k) :
    inputDeleteCharAtCursor c = (do
      redraw pure
      placeCursor pure : C Unit) (c.setCur fun s => { s with
        buffer := deleted s.buffer L k
        inputLength := L - 1
        inputCursor := k - 1 }) := by
  unfold inputDeleteCharAtCursor
  rw [cur_bind, h.1, h.2, if_pos ⟨hpos, by omega⟩,
    bind_of_ok (shiftLeft_apply h.1 h.2 hk hL hpos), bind_of_ok (setCur_apply _ _),
    bind_of_ok (bufSet_apply (by omega) 0 _), bind_of_ok (setCur_apply _ _)]
  simp only [Console.setCur_setCur]
  refine congrArg _ (Console.setCur_congr ?_)
  rw [h.1, h.2]
  rfl

/-! A key that finds nothing to do leaves everything as it is. -/

theorem insert_refused {b : BitVec 8} (h : ¬ (32 ≤ b.toNat ∧ b.toNat ≤ 126) ∨
    ¬ (c.states c.current).inputLength < screenSize - 1) : inputInsertCharAtCursor b c =
      .ok () c := by
  unfold inputInsertCharAtCursor
  by_cases hb : 32 ≤ b.toNat ∧ b.toNat ≤ 126
  · rw [if_pos hb, cur_bind, if_neg (h.resolve_left (not_not_intro hb))]
    rfl
  · rw [if_neg hb]
    rfl

theorem delete_refused
    (h : ¬ (0 < (c.states c.current).inputCursor ∧ 0 < (c.states c.current).inputLength)) :
    inputDeleteCharAtCursor c = .ok () c := by
  unfold inputDeleteCharAtCursor
  rw [cur_bind, if_neg h]
  rfl

theorem left_refused (h : ¬ 0 < (c.states c.current).inputCursor) :
    inputMoveCursorLeft c = .ok () c := by
  unfold inputMoveCursorLeft
  rw [cur_bind, if_neg h]
  rfl

theorem right_refused (h : ¬ (c.states c.current).inputCursor < (c.states c.current).inputLength) :
    inputMoveCursorRight c = .ok () c := by
  unfold inputMoveCursorRight
  rw [cur_bind, if_neg h]
  rfl

/-! The arrow keys move the cursor only. -/

theorem left_eq (h : 0 < (c.states c.current).inputCursor) :
    inputMoveCursorLeft c = (do
      setCur fun s => { s with inputCursor := s.inputCursor - 1 }
      placeCursor pure : C Unit) c := by
  unfold inputMoveCursorLeft
  rw [cur_bind, if_pos h]

theorem right_eq (h : (c.states c.current).inputCursor < (c.states c.current).inputLength) :
    inputMoveCursorRight c = (do
      setCur fun s => { s with inputCursor := s.inputCursor + 1 }
      placeCursor pure : C Unit) c := by
  unfold inputMoveCursorRight
  rw [cur_bind, if_pos h]

def LineIs (L k : Nat) (buf : Mem) (s : ScreenState) : Prop :=
  s.inputLength = L ∧ s.inputCursor = k ∧ s.buffer = buf

theorem Touches.lineAt {L k : Nat} {buf : Mem} {c d : Console}
    (h : Touches (fun _ s => LineIs L k buf s) c d) : Touches (fun _ s => LineAt L k s) c d :=
  h.mono fun _ _ hs => ⟨hs.1, hs.2.1⟩

theorem Touches.drawsLine {L k : Nat} {buf : Mem} {c d e : Console}
    (h : Touches (fun _ s => LineIs L k buf s) c d) (h' : Touches SameText d e) :
    Touches (fun _ s => LineIs L k buf s) c e :=
  h.followed h' fun _ _ hs hss => ⟨hss.2.1.trans hs.1, hss.2.2.trans hs.2.1, hss.1.trans hs.2.2⟩

theorem setCur_line {L k : Nat} {buf : Mem} {c d : Console} {f : ScreenState → ScreenState}
    {P : ScreenState → Prop} (h : Touches (fun _ s => P s) c d)
    (hf : ∀ s, P s → LineIs L k buf (f s)) : Touches (fun _ s => LineIs L k buf s) c (d.setCur f) :=
  h.followed (setCur_touches _ _) fun s _ hs hss => hss ▸ hf s hs

theorem insert_ok {L k : Nat} {buf : Mem} (h : LineIs L k buf (c.states c.current)) (hk : k ≤ L)
    (hL : L < screenSize - 1) {b : BitVec 8} (hb : 32 ≤ b.toNat ∧ b.toNat ≤ 126) :
    ∃ c', inputInsertCharAtCursor b c = .ok () c' ∧
      Touches (fun _ s => LineIs (L + 1) (k + 1) (inserted buf L k b) s) c c' := by
  have h₀ : Touches (fun _ s => LineIs L k buf s) c c := ⟨rfl, fun _ _ => rfl, h⟩
  obtain ⟨c₁, hc₁⟩ : ∃ c₁, c₁ = c.setCur fun s => { s with
    buffer := inserted s.buffer L k b
    inputLength := L + 1 } := ⟨_, rfl⟩
  have h₁ : Touches (fun _ s => LineIs (L + 1) k (inserted buf L k b) s) c c₁ := by
    rw [hc₁]
    refine setCur_line h₀ ?_
    rintro s ⟨-, h2, h3⟩
    exact ⟨rfl, h2, by rw [h3]⟩
  have hlen : (c₁.states c₁.current).inputLength = L + 1 := h₁.lineAt.length
  obtain ⟨c₂, hr₂, ht₂⟩ := redraw_ok (c := c₁) scrollInto_draws (by omega)
  have h₃ : Touches (fun _ s => LineIs (L + 1) (k + 1) (inserted buf L k b) s) c
      (c₂.setCur fun s => { s with inputCursor := s.inputCursor + 1 }) := by
    refine setCur_line (h₁.drawsLine ht₂) ?_
    rintro s ⟨h1, h2, h3⟩
    exact ⟨h1, congrArg (· + 1) h2, h3⟩
  obtain ⟨_, c₄, hr₄, ht₄⟩ := placeCursor_draws scrollInto_draws
    (c₂.setCur fun s => { s with inputCursor := s.inputCursor + 1 })
  refine ⟨c₄, ?_, h₃.drawsLine ht₄⟩
  rw [insert_eq ⟨h.1, h.2.1⟩ hk hL hb, ← hc₁, bind_of_ok hr₂, bind_of_ok (setCur_apply _ _), hr₄]

theorem delete_ok {L k : Nat} {buf : Mem} (h : LineIs L k buf (c.states c.current)) (hk : k ≤ L)
    (hL : L < screenSize) (hpos : 0 < k) :
    ∃ c', inputDeleteCharAtCursor c = .ok () c' ∧
      Touches (fun _ s => LineIs (L - 1) (k - 1) (deleted buf L k) s) c c' := by
  have h₀ : Touches (fun _ s => LineIs L k buf s) c c := ⟨rfl, fun _ _ => rfl, h⟩
  obtain ⟨c₁, hc₁⟩ : ∃ c₁, c₁ = c.setCur fun s => { s with
    buffer := deleted s.buffer L k
    inputLength := L - 1
    inputCursor := k - 1 } := ⟨_, rfl⟩
  have h₁ : Touches (fun _ s => LineIs (L - 1) (k - 1) (deleted buf L k) s) c c₁ := by
    rw [hc₁]
    refine setCur_line h₀ ?_
    rintro s ⟨-, -, h3⟩
    exact ⟨rfl, rfl, by rw [h3]⟩
  have hlen : (c₁.states c₁.current).inputLength = L - 1 := h₁.lineAt.length
  have hpure : ∀ y, Total (Touches SameText) (pure y : C Nat) := fun y => .pure drawing y
  obtain ⟨c₂, hr₂, ht₂⟩ := redraw_ok (c := c₁) hpure (by omega)
  obtain ⟨_, c₃, hr₃, ht₃⟩ := placeCursor_draws hpure c₂
  refine ⟨c₃, ?_, (h₁.drawsLine ht₂).drawsLine ht₃⟩
  rw [delete_eq ⟨h.1, h.2.1⟩ hk hL hpos, ← hc₁, bind_of_ok hr₂, hr₃]

theorem move_ok {L k j : Nat} {buf : Mem} (h : LineIs L k buf (c.states c.current))
    {f : ScreenState → ScreenState} (hf : ∀ s, LineIs L k buf s → LineIs L j buf (f s)) :
    ∃ c', (do setCur f; placeCursor pure) c = .ok () c' ∧
      Touches (fun _ s => LineIs L j buf s) c c' := by
  have h₀ : Touches (fun _ s => LineIs L k buf s) c c := ⟨rfl, fun _ _ => rfl, h⟩
  have h₁ := setCur_line h₀ hf
  obtain ⟨_, c₂, hr₂, ht₂⟩ := placeCursor_draws (fun y => .pure drawing y) (c.setCur f)
  exact ⟨c₂, by rw [bind_of_ok (setCur_apply _ _), hr₂], h₁.drawsLine ht₂⟩

theorem prompt_ok (c : Console) :
    ∃ c', shellPrintPrompt c = .ok () c' ∧ Touches (fun _ s => LineAt 0 0 s) c c' := by
  obtain ⟨_, c₁, hr₁, ht₁⟩ := screenPutstring_draws (bytesOf "kfs> ") c
  refine ⟨c₁.setCur fun s => { s with
    inputStartX := s.cursorX
    inputStartY := s.cursorY
    inputLength := 0
    inputCursor := 0 }, (bind_of_ok hr₁).trans (setCur_apply _ c₁), ?_⟩
  refine Touches.followed (P := fun _ => True) (ht₁.mono fun _ _ _ => trivial)
    (setCur_touches _ _) ?_
  rintro s _ - rfl
  exact ⟨rfl, rfl⟩

/-- **Enter** starts an empty line too. -/
theorem newline_ok (out : List Out) (h : (c.states c.current).inputLength < screenSize) :
    ∃ c', inputNewline out c = .ok () c' ∧ Touches (fun _ s => LineAt 0 0 s) c c' := by
  obtain ⟨_, c₁, hr₁, ht₁⟩ := bufSet_total h 0 c
  obtain ⟨_, c₂, hr₂, ht₂⟩ := screenPutchar_draws newline c₁
  have h₂ : Touches (fun _ _ => True) c c₂ :=
    Touches.followed (P := fun _ => True) (ht₁.mono fun _ _ _ => trivial) ht₂ fun _ _ _ _ => trivial
  have hshell : ∃ c₃, (do
      if (c₂.states c₂.current).inputLength > 0 then
        shellProcessInput (cString (c₂.states c₂.current).buffer 0 screenSize) out
      else
        shellPrintPrompt : C Unit) c₂ = .ok () c₃ ∧ Touches (fun _ _ => True) c₂ c₃ := by
    split
    · unfold shellProcessInput
      split
      · obtain ⟨_, c₃, hr₃, ht₃⟩ := runOut_draws out c₂
        obtain ⟨c₄, hr₄, ht₄⟩ := prompt_ok c₃
        exact ⟨c₄, (bind_of_ok hr₃).trans hr₄, Touches.followed (P := fun _ => True)
          (ht₃.mono fun _ _ _ => trivial) ht₄ fun _ _ _ _ => trivial⟩
      · obtain ⟨c₃, hr₃, ht₃⟩ := prompt_ok c₂
        exact ⟨c₃, hr₃, ht₃.mono fun _ _ _ => trivial⟩
    · obtain ⟨c₃, hr₃, ht₃⟩ := prompt_ok c₂
      exact ⟨c₃, hr₃, ht₃.mono fun _ _ _ => trivial⟩
  obtain ⟨c₃, hr₃, ht₃⟩ := hshell
  refine ⟨c₃.setCur fun s => { s with inputLength := 0, inputCursor := 0 }, ?_, ?_⟩
  · unfold inputNewline
    rw [cur_bind, bind_of_ok hr₁, bind_of_ok hr₂, cur_bind]
    by_cases hpos : (c₂.states c₂.current).inputLength > 0
    · rw [if_pos hpos] at hr₃ ⊢
      exact (bind_of_ok hr₃).trans (setCur_apply _ c₃)
    · rw [if_neg hpos] at hr₃ ⊢
      exact (bind_of_ok hr₃).trans (setCur_apply _ c₃)
  · refine Touches.followed (P := fun _ => True) (h₂.followed ht₃ fun _ _ _ _ => trivial)
      (setCur_touches _ _) ?_
    rintro s _ - rfl
    exact ⟨rfl, rfl⟩

end Line

/-! ## Text that fits in its row -/

theorem Vga.set_before {v : Vga} {i a : Nat} {e : BitVec 16} (ha : a < 2 * i) :
    (v.set i e).mem a = v.mem a := by
  show storeByte _ _ _ a = _
  rw [storeByte_other (by omega), storeByte_other (by omega)]

theorem Vga.set_char {v : Vga} {i : Nat} {uc color : BitVec 8} :
    (v.set i (vgaEntry uc color)).mem (2 * i) = uc := by
  show storeByte _ _ _ (2 * i) = _
  rw [storeByte_other (by omega), storeByte_same]
  unfold vgaEntry
  ext k hk
  simp [hk, show k < 16 by omega]

theorem screenPutchar_plain {c : Console} {b : BitVec 8} (hb : b ≠ newline ∧ b ≠ backspace)
    (hx : (c.states c.current).cursorX < screenWidth)
    (hy : (c.states c.current).cursorY < screenHeight) :
    ∃ c', screenPutchar b c = .ok () c' ∧ c'.current = c.current ∧
      c'.states = (c.setCur fun s => { s with cursorX := s.cursorX + 1 }).states ∧
      c'.vga = c.vga.set ((c.states c.current).cursorY * screenWidth + (c.states c.current).cursorX)
        (vgaEntry b (c.states c.current).color) := by
  obtain ⟨d, hd⟩ : ∃ d : Console, d = { c.setCur fun s => { s with cursorX := s.cursorX + 1 } with
    vga := c.vga.set ((c.states c.current).cursorY * screenWidth + (c.states c.current).cursorX)
      (vgaEntry b (c.states c.current).color) } := ⟨_, rfl⟩
  have hcur : d.states d.current = { c.states c.current with
      cursorX := (c.states c.current).cursorX + 1 } := by
    rw [hd]
    exact Function.update_self _ _ _
  have hfirst : (do
      vgaWrite ((c.states c.current).cursorY * screenWidth + (c.states c.current).cursorX)
        (vgaEntry b (c.states c.current).color)
      setCur fun s => { s with cursorX := s.cursorX + 1 } : C Unit) c = .ok () d := by
    rw [hd]
    rfl
  obtain ⟨_, e, h1, h2⟩ := bind_eq_ok.mp hfirst
  refine ⟨{ d with hardwareCursor := ((d.states d.current).cursorY * screenWidth +
    (d.states d.current).cursorX) % 2 ^ 16 }, ?_, by rw [hd]; rfl, by rw [hd], by rw [hd]⟩
  unfold screenPutchar
  rw [cur_bind, if_neg hb.1, if_neg hb.2, bind_of_ok h1, bind_of_ok h2]
  dsimp only
  rw [cur_bind, if_neg (by rw [hcur]; exact Nat.not_lt.mpr hx), cur_bind,
    if_neg (by rw [hcur]; exact Nat.not_le.mpr hy)]
  rfl

theorem screenPutstring_plain : ∀ (str : List (BitVec 8)) {c : Console},
    (∀ b ∈ str, b ≠ newline ∧ b ≠ backspace) →
    (c.states c.current).cursorX + str.length ≤ screenWidth →
    (c.states c.current).cursorY < screenHeight →
    ∃ c', screenPutstring str c = .ok () c' ∧ c'.current = c.current ∧
      c'.states = (c.setCur fun s => { s with cursorX := s.cursorX + str.length }).states ∧
      ∀ a, a < 2 * ((c.states c.current).cursorY * screenWidth + (c.states c.current).cursorX) →
        c'.vga.mem a = c.vga.mem a
  | [], c, _, _, _ => ⟨c, rfl, rfl, (Function.update_eq_self _ _).symm, fun _ _ => rfl⟩
  | b :: str, c, hb, hx, hy => by
    rw [List.length_cons] at hx
    obtain ⟨c₁, hr₁, hk₁, hs₁, hv₁⟩ := screenPutchar_plain (hb b List.mem_cons_self) (by omega) hy
    have hself : c₁.states c₁.current =
        { c.states c.current with cursorX := (c.states c.current).cursorX + 1 } := by
      rw [hs₁, hk₁]
      exact Function.update_self _ _ _
    obtain ⟨c₂, hr₂, hk₂, hs₂, hv₂⟩ := screenPutstring_plain str (c := c₁)
      (fun d hd => hb d (List.mem_cons_of_mem _ hd))
      (by rw [hself]; show _ + 1 + _ ≤ _; omega) (by rw [hself]; exact hy)
    refine ⟨c₂, (bind_of_ok hr₁).trans hr₂, hk₂.trans hk₁, ?_, fun a ha => ?_⟩
    · rw [hs₂]
      unfold Console.setCur
      rw [hself, hk₁, hs₁]
      unfold Console.setCur
      have hsum : (c.states c.current).cursorX + 1 + str.length =
          (c.states c.current).cursorX + (str.length + 1) := by omega
      rw [Function.update_idem, List.length_cons]
      dsimp only
      rw [hsum]
    · rw [hself] at hv₂
      dsimp only at hv₂
      rw [hv₂ a (by omega), hv₁, Vga.set_before ha]


theorem screenClear_states (c : Console) :
    ∃ c', screenClear c = .ok () c' ∧ c'.current = c.current ∧
      c'.states = (c.setCur fun s => { s with cursorX := 0, cursorY := 0 }).states := by
  have hframe : Frame fun c c' : Console => c'.current = c.current ∧ c'.states = c.states :=
    ⟨fun _ => ⟨rfl, rfl⟩, fun h h' => ⟨h'.1.trans h.1, h'.2.trans h.2⟩⟩
  have hpaint : Total (fun c c' : Console => c'.current = c.current ∧ c'.states = c.states)
      (forUp (fun i => do vgaWrite i (vgaEntry space (← cur).color)) 0
        (screenWidth * screenHeight)) :=
    .forUp hframe _ fun _ _ _ _ => ⟨_, _, rfl, rfl, rfl⟩
  obtain ⟨_, ⟨st, k, v, p⟩, hr, hk, hs⟩ := hpaint c
  cases hk
  cases hs
  exact ⟨_, (bind_of_ok hr).trans rfl, rfl, rfl⟩

end Kfs
