import Kfs.Printf
import Kfs.ScreenSwitch

/-!
# Where printing writes

A screen has 2000 cells. `screen_putchar` moves to the next row when the cursor is
past column 80, not at it, so a character may be printed at column 80: on every row
but the last that is the first cell of the next one, on the last row it is cell
2000, outside the screen.

`Pos.advance` is the way of the cursor; `Prints` follows the code along it.
-/

namespace Kfs

open Kfs.Lib

/-! ## The way of the cursor -/

/-- Column and row. -/
structure Pos where
  x : Nat
  y : Nat
  deriving DecidableEq, Repr

namespace Pos

/-- The cursor stays within these bounds; column 80 is one of them. -/
def In (p : Pos) : Prop := p.x ≤ screenWidth ∧ p.y < screenHeight

/-- The place whose cell is outside the screen. -/
def corner : Pos := ⟨screenWidth, screenHeight - 1⟩

def moved (p : Pos) (b : BitVec 8) : Pos :=
  if b = newline then ⟨0, p.y + 1⟩ else if b = backspace then ⟨p.x - 1, p.y⟩ else ⟨p.x + 1, p.y⟩

/-- Line overflow. -/
def wrapped (p : Pos) : Pos := if p.x > screenWidth then ⟨0, p.y + 1⟩ else p

/-- Screen overflow. -/
def scrolled (p : Pos) : Pos := if p.y ≥ screenHeight then ⟨p.x, screenHeight - 1⟩ else p

def advance (p : Pos) (b : BitVec 8) : Pos := (p.moved b).wrapped.scrolled

def walk (p : Pos) (text : List (BitVec 8)) : Pos := text.foldl advance p

/-- Printed from `p`, `text` has no visible character at the corner. -/
def Fits : Pos → List (BitVec 8) → Prop
  | _, [] => True
  | p, b :: text => (p = corner → b = newline ∨ b = backspace) ∧ (p.advance b).Fits text

instance decidableFits : ∀ (p : Pos) (text : List (BitVec 8)), Decidable (p.Fits text)
  | _, [] => inferInstanceAs (Decidable True)
  | p, b :: text =>
    have := decidableFits (p.advance b) text
    inferInstanceAs (Decidable ((p = corner → b = newline ∨ b = backspace) ∧ _))

/-- A character leaves the cursor within the bounds, wherever it was. -/
theorem advance_in (p : Pos) (b : BitVec 8) : (p.advance b).In := by
  have hwrapped : (p.moved b).wrapped.x ≤ 80 := by
    unfold wrapped
    split_ifs with h
    · exact Nat.zero_le _
    · exact Nat.le_of_not_lt h
  unfold Pos.advance scrolled
  split_ifs with h
  · exact ⟨hwrapped, Nat.lt_succ_self _⟩
  · exact ⟨hwrapped, Nat.lt_of_not_le h⟩

theorem In.walk {p : Pos} (hp : p.In) : ∀ text, (p.walk text).In := by
  intro text
  induction text generalizing p with
  | nil => exact hp
  | cons b text ih => exact ih (p.advance_in b)

end Pos

def ScreenState.pos (s : ScreenState) : Pos := ⟨s.cursorX, s.cursorY⟩

def Console.pos (c : Console) : Pos := (c.states c.current).pos

/-! ## Following the code -/

/-- The cells from `c` to `c'` lie in the screen exactly if `ok`, and only the current
screen has changed, its cursor being at `q`. -/
structure Moves (q : Pos) (ok : Prop) (c c' : Console) : Prop where
  current : c'.current = c.current
  others : ∀ a, a ≠ c.current → c'.states a = c.states a
  pos : c'.pos = q
  written : ∃ ws, c'.vga.written = ws ++ c.vga.written ∧
    ((∀ w ∈ ws, w < screenWidth * screenHeight) ↔ ok)

/-- Called with the cursor at `p`, the code returns with the cursor at `q`; it writes inside
the screen exactly if `ok`. -/
def Prints (p : Pos) (x : C Unit) (q : Pos) (ok : Prop) : Prop :=
  ∀ c : Console, c.pos = p → ∃ c', x c = .ok () c' ∧ Moves q ok c c'

section Prints

variable {p q r : Pos} {ok ok' : Prop}

theorem Prints.congr {x : C Unit} (h : Prints p x q ok) (he : ok ↔ ok') : Prints p x q ok' := by
  intro c hc
  obtain ⟨c', hr, hm⟩ := h c hc
  obtain ⟨ws, hw, hok⟩ := hm.written
  exact ⟨c', hr, hm.current, hm.others, hm.pos, ws, hw, hok.trans he⟩

theorem Prints.bind {x : C Unit} {f : Unit → C Unit} (hx : Prints p x q ok)
    (hf : ∀ u, Prints q (f u) r ok') : Prints p (x >>= f) r (ok ∧ ok') := by
  intro c hc
  obtain ⟨c₁, h₁, hm₁⟩ := hx c hc
  obtain ⟨c₂, h₂, hm₂⟩ := hf () c₁ hm₁.pos
  obtain ⟨ws₁, hw₁, hok₁⟩ := hm₁.written
  obtain ⟨ws₂, hw₂, hok₂⟩ := hm₂.written
  refine ⟨c₂, (bind_of_ok h₁).trans h₂, hm₂.current.trans hm₁.current, fun a ha => ?_, hm₂.pos,
    ws₂ ++ ws₁, ?_, ?_⟩
  · rw [hm₂.others a (by rw [hm₁.current]; exact ha), hm₁.others a ha]
  · rw [hw₂, hw₁, List.append_assoc]
  · rw [← hok₁, ← hok₂]
    simp only [List.mem_append, or_imp, forall_and]
    exact and_comm

theorem Prints.and_then {x : C Unit} {f : Unit → C Unit} (hx : Prints p x q True)
    (hf : ∀ u, Prints q (f u) r True) : Prints p (x >>= f) r True :=
  (hx.bind hf).congr (and_self_iff)

theorem Prints.ite {b : Prop} [Decidable b] {x y : C Unit} (hx : b → Prints p x q ok)
    (hy : ¬ b → Prints p y q ok) : Prints p (if b then x else y) q ok := by
  split
  · next h => exact hx h
  · next h => exact hy h

theorem pure_prints : Prints p (pure ()) p True :=
  fun c hc => ⟨c, rfl, rfl, fun _ _ => rfl, hc, [], rfl, by simp⟩

theorem cur_prints {f : ScreenState → C Unit}
    (h : ∀ s : ScreenState, s.pos = p → Prints p (f s) q ok) :
    Prints p (cur >>= f) q ok :=
  fun c hc => h (c.states c.current) hc c hc

theorem setCur_prints {f : ScreenState → ScreenState}
    (h : ∀ s : ScreenState, s.pos = p → (f s).pos = q) : Prints p (setCur f) q True := by
  intro c hc
  refine ⟨c.setCur f, rfl, rfl, fun a ha => c.setCur_other f ha, ?_, [], rfl, by simp⟩
  show ((c.setCur f).states c.current).pos = q
  rw [Console.setCur_self]
  exact h _ hc

theorem updateHardwareCursor_prints : Prints p updateHardwareCursor p True :=
  fun c hc => ⟨_, rfl, rfl, fun _ _ => rfl, hc, [], rfl, by simp⟩

theorem vgaWrite_prints (i : Nat) (e : BitVec 16) :
    Prints p (vgaWrite i e) p (i < screenWidth * screenHeight) :=
  fun c hc => ⟨_, rfl, rfl, fun _ _ => rfl, hc, [i], rfl, by simp⟩

theorem vgaWrite_inside {i : Nat} (hi : i < screenWidth * screenHeight) (e : BitVec 16) :
    Prints p (vgaWrite i e) p True :=
  (vgaWrite_prints i e).congr (iff_true_intro hi)

theorem forUp_prints {f : Nat → C Unit} (n : Nat) :
    ∀ {l : Nat}, (∀ i, l ≤ i → i < l + n → Prints p (f i) p True) →
    Prints p (forUp f l n) p True := by
  induction n with
  | zero => exact fun _ => pure_prints
  | succ n ih =>
    intro l hf
    exact (hf l (by omega) (by omega)).and_then fun _ => ih fun i h1 h2 =>
      hf i (by omega) (by omega)

theorem screenClear_prints : Prints p screenClear ⟨0, 0⟩ True := by
  refine (forUp_prints _ fun i _ hi => cur_prints fun s _ => ?_).and_then fun _ => ?_
  · exact vgaWrite_inside (by omega) _
  · refine (setCur_prints fun s _ => ?_).and_then fun _ => updateHardwareCursor_prints
    rfl

theorem screenScroll_prints : Prints p screenScroll ⟨p.x, screenHeight - 1⟩ True := by
  refine (forUp_prints _ fun y _ hy => forUp_prints _ fun x _ hx => ?_).and_then fun _ =>
    (forUp_prints _ fun x _ hx => cur_prints fun s _ => ?_).and_then fun _ => ?_
  · intro c hc
    refine vgaWrite_inside ?_ _ c hc
    simp only [screenWidth, screenHeight] at hx hy ⊢
    omega
  · apply vgaWrite_inside
    simp only [screenWidth, screenHeight] at hx ⊢
    omega
  · refine (setCur_prints fun s hs => ?_).and_then fun _ => updateHardwareCursor_prints
    rw [← hs]
    rfl

theorem overflow_prints : Prints p (do
    if (← cur).cursorX > screenWidth then
      setCur fun s => { s with cursorX := 0, cursorY := s.cursorY + 1 }
    if (← cur).cursorY ≥ screenHeight then
      screenScroll
    updateHardwareCursor) p.wrapped.scrolled True := by
  have hscroll : ∀ q : Pos, Prints q (do
      if (← cur).cursorY ≥ screenHeight then
        screenScroll
      updateHardwareCursor) q.scrolled True := by
    intro q
    refine cur_prints fun s hs => ?_
    subst hs
    refine .ite (fun h => ?_) fun h => ?_
    · rw [Pos.scrolled, if_pos (show s.pos.y ≥ screenHeight from h)]
      exact screenScroll_prints.and_then fun _ => updateHardwareCursor_prints
    · rw [Pos.scrolled, if_neg (show ¬ s.pos.y ≥ screenHeight from h)]
      exact updateHardwareCursor_prints
  refine cur_prints fun s hs => ?_
  subst hs
  refine .ite (fun h => ?_) fun h => ?_
  · rw [Pos.wrapped, if_pos (show s.pos.x > screenWidth from h)]
    refine (setCur_prints fun t ht => ?_).and_then fun _ => hscroll _
    exact congrArg (fun p : Pos => (⟨0, p.y + 1⟩ : Pos)) ht
  · rw [Pos.wrapped, if_neg (show ¬ s.pos.x > screenWidth from h)]
    exact hscroll _

/-- **One character** is written outside the screen exactly if it is visible and the
cursor is at the corner. -/
theorem screenPutchar_prints (hp : p.In) (b : BitVec 8) :
    Prints p (screenPutchar b) (p.advance b) (p = Pos.corner → b = newline ∨ b = backspace) := by
  obtain ⟨hx, hy⟩ := hp
  simp only [screenWidth, screenHeight] at hx hy
  unfold screenPutchar Pos.advance Pos.moved
  refine cur_prints fun s hs => ?_
  have hsx : s.cursorX = p.x := congrArg Pos.x hs
  have hsy : s.cursorY = p.y := congrArg Pos.y hs
  by_cases hn : b = newline
  · rw [if_pos hn, if_pos hn]
    refine ((setCur_prints fun t ht => ?_).and_then fun _ => overflow_prints).congr ?_
    · exact congrArg (fun p : Pos => (⟨0, p.y + 1⟩ : Pos)) ht
    · simp [hn]
  rw [if_neg hn, if_neg hn]
  by_cases hb : b = backspace
  · rw [if_pos hb, if_pos hb]
    refine Prints.congr (.ite (fun h => ?_) fun h => ?_) (show True ↔ _ by simp [hb])
    · refine (setCur_prints (q := ⟨p.x - 1, p.y⟩) fun t ht => ?_).and_then fun _ =>
        (vgaWrite_inside ?_ _).and_then fun _ => overflow_prints
      · exact congrArg (fun p : Pos => (⟨p.x - 1, p.y⟩ : Pos)) ht
      · simp only [screenWidth, screenHeight]
        omega
    · rw [show (⟨p.x - 1, p.y⟩ : Pos) = p by rw [show p.x - 1 = p.x by omega]]
      exact overflow_prints
  · rw [if_neg hb, if_neg hb]
    refine ((vgaWrite_prints _ _).bind fun _ =>
      (setCur_prints (q := ⟨p.x + 1, p.y⟩) fun t ht => ?_).and_then
      fun _ => overflow_prints).congr ?_
    · exact congrArg (fun p : Pos => (⟨p.x + 1, p.y⟩ : Pos)) ht
    · rw [hsx, hsy]
      obtain ⟨x, y⟩ := p
      dsimp only at hx hy ⊢
      simp only [Pos.corner, Pos.mk.injEq, screenWidth, screenHeight, hn, hb, or_self, imp_false,
        and_true]
      omega

theorem screenPutstring_prints (hp : p.In) (text : List (BitVec 8)) :
    Prints p (screenPutstring text) (p.walk text) (p.Fits text) := by
  induction text generalizing p with
  | nil => exact pure_prints
  | cons b text ih => exact (screenPutchar_prints hp b).bind fun _ => ih (p.advance_in b)

end Prints

/-! ## Calls -/

/-- A call that prints, or moves between places and screens. -/
inductive PrintOp where
  | putchar (c : BitVec 8)
  | putstring (str : List (BitVec 8))
  /-- `kprintf` with the format at `fmt` in memory `m`. -/
  | kprintf (m : Mem) (fmt : Nat) (args : VaList)
  | clear
  | setCursor (x y : Nat)
  | switch (n : Int)

namespace PrintOp

def run : PrintOp → C Unit
  | putchar c => screenPutchar c
  | putstring str => screenPutstring str
  | kprintf m fmt args => kprintfv m addressSpace fmt args
  | clear => screenClear
  | setCursor x y => screenSetCursor x y
  | switch n => switchScreen n

/-- What the call prints. -/
def text : PrintOp → List (BitVec 8)
  | putchar c => [c]
  | putstring str => str
  | kprintf m fmt args => formatText m addressSpace fmt args
  | _ => []

end PrintOp

/-- The state a call ends in, also if it is still reading its format. -/
def afterCall (x : C Unit) (c : Console) : Console :=
  match x c with
  | .ok _ c' => c'
  | .error _ c' => c'

def PrintStep (c : Console) (op : PrintOp) (c' : Console) : Prop := c' = afterCall op.run c

def PrintStart (c : Console) : Prop := ∃ c₀, c₀.vga.written = [] ∧ screenInit c₀ = .ok () c

/-- Every cell written so far is one of the screen's. -/
def InText (c : Console) : Prop := ∀ w ∈ c.vga.written, w < screenWidth * screenHeight

/-- Every screen's cursor is in its bounds. -/
def Within (c : Console) : Prop := ∀ a, (c.states a).pos.In

theorem Moves.inText {q : Pos} {ok : Prop} {c c' : Console} (h : Moves q ok c c') :
    InText c' ↔ InText c ∧ ok := by
  obtain ⟨ws, hw, hok⟩ := h.written
  unfold InText
  rw [hw, ← hok]
  simp only [List.mem_append, or_imp, forall_and]
  exact and_comm

theorem Moves.within {q : Pos} {ok : Prop} {c c' : Console} (h : Moves q ok c c') (hc : Within c)
    (hq : q.In) : Within c' := by
  intro a
  by_cases ha : a = c.current
  · rw [ha, ← h.current]
    show c'.pos.In
    rw [h.pos]
    exact hq
  · rw [h.others a ha]
    exact hc a

/-- What a call does to the bounds. -/
structure Bounded (ok : Prop) (c c' : Console) : Prop where
  within : Within c'
  inText : InText c' ↔ InText c ∧ ok

theorem afterCall_of_ok {x : C Unit} {c d : Console} (h : x c = .ok () d) : afterCall x c = d := by
  unfold afterCall
  rw [h]

theorem Prints.bounded {x : C Unit} {c : Console} {q : Pos} {ok : Prop} (h : Prints c.pos x q ok)
    (hc : Within c) (hq : q.In) : Bounded ok c (afterCall x c) := by
  obtain ⟨c', hr, hm⟩ := h c rfl
  rw [afterCall_of_ok hr]
  exact ⟨hm.within hc hq, hm.inText⟩

theorem Prints.after {x : C Unit} {c : Console} {q : Pos} {ok : Prop} (h : Prints c.pos x q ok) :
    (afterCall x c).pos = q := by
  obtain ⟨c', hr, hm⟩ := h c rfl
  rw [afterCall_of_ok hr]
  exact hm.pos

theorem Within.bounded {c : Console} (hc : Within c) : Bounded True c c :=
  ⟨hc, (and_iff_left trivial).symm⟩

theorem kprintfv_after (m : Mem) (n fmt : Nat) (args : VaList) (c : Console) :
    afterCall (kprintfv m n fmt args) c = afterCall
      (screenPutstring (formatText m n fmt args)) c := by
  obtain ⟨c', hr, hk⟩ := kprintfv_puts m n fmt args c
  rw [afterCall_of_ok hr]
  unfold afterCall
  rcases hk with hk | hk <;> rw [hk]

theorem switchScreen_bounded (n : Int) {c : Console} (hc : Within c) :
    Bounded True c (afterCall (switchScreen n) c) := by
  unfold switchScreen
  by_cases hn : 0 ≤ n ∧ n < maxScreens
  swap
  · rw [dif_neg hn]
    exact hc.bounded
  rw [dif_pos hn]
  by_cases hcur : c.current = ⟨n.toNat, by omega⟩
  · rw [afterCall_of_ok (d := c)]
    · exact hc.bounded
    · rw [get_bind_apply, if_neg (not_not.mpr hcur)]
      rfl
  rw [afterCall_of_ok]
  rotate_left
  · rw [get_bind_apply, if_pos hcur]
    rfl
  refine ⟨fun a => ?_, ?_⟩
  · show (Function.update c.states c.current _ a).pos.In
    by_cases ha : a = c.current
    · subst ha
      rw [Function.update_self]
      exact hc c.current
    · rw [Function.update_of_ne ha]
      exact hc a
  · show (∀ w ∈ List.range (screenSize / 2) ++ c.vga.written, _) ↔ _
    unfold InText
    simp only [List.mem_append, List.mem_range, or_imp, forall_and, and_true]
    exact and_iff_right fun w hw => by simpa using hw

theorem screenSetCursor_prints {p : Pos} {x y : Nat} (h : x < screenWidth ∧ y < screenHeight) :
    Prints p (screenSetCursor x y) ⟨x, y⟩ True := by
  unfold screenSetCursor
  rw [if_pos h]
  refine (setCur_prints fun s _ => ?_).and_then fun _ => updateHardwareCursor_prints
  rfl

theorem screenSetCursor_bounded (x y : Nat) {c : Console} (hc : Within c) :
    Bounded True c (afterCall (screenSetCursor x y) c) := by
  by_cases h : x < screenWidth ∧ y < screenHeight
  · exact (screenSetCursor_prints h).bounded hc ⟨Nat.le_of_lt h.1, h.2⟩
  · unfold screenSetCursor
    rw [if_neg h]
    exact hc.bounded

/-- **Every call** keeps the cursors in their bounds, and writes inside the screen exactly if
its text has no visible character at the corner. -/
theorem PrintOp.run_bounded (op : PrintOp) {c : Console} (hc : Within c) :
    Bounded (c.pos.Fits op.text) c (afterCall op.run c) := by
  have hp : c.pos.In := hc c.current
  cases op with
  | putchar b =>
    have hb := (screenPutchar_prints hp b).bounded hc (c.pos.advance_in b)
    exact ⟨hb.within, hb.inText.trans (and_congr_right' (and_iff_left trivial).symm)⟩
  | putstring str => exact (screenPutstring_prints hp str).bounded hc (hp.walk str)
  | kprintf m fmt args =>
    show Bounded _ c (afterCall (kprintfv m addressSpace fmt args) c)
    rw [kprintfv_after]
    exact (screenPutstring_prints hp _).bounded hc (hp.walk _)
  | clear => exact screenClear_prints.bounded hc ⟨Nat.zero_le _, Nat.succ_pos _⟩
  | setCursor x y => exact screenSetCursor_bounded x y hc
  | switch n => exact switchScreen_bounded n hc

/-! ## The start -/

theorem kprintf_prints {p q : Pos} {str : String} (hp : p.In) (hq : p.walk (bytesOf str) = q)
    (hfit : p.Fits (bytesOf str)) : Prints p (kprintf str) q True := by
  rw [← hq]
  exact (screenPutstring_prints hp _).congr (iff_true_intro hfit)

theorem screenSetColor_prints {p : Pos} (fg bg : VgaColor) :
    Prints p (screenSetColor fg bg) p True := by
  refine (setCur_prints fun _ hs => ?_).and_then fun _ => updateHardwareCursor_prints
  exact hs

theorem homeLine_prints (y' : Nat) {y : Nat} {str : String} (hy : y < screenHeight)
    (h : (⟨0, y⟩ : Pos).walk (bytesOf str) = ⟨0, y'⟩ ∧ (⟨0, y⟩ : Pos).Fits (bytesOf str)) :
    Prints ⟨0, y⟩ (kprintf str) ⟨0, y'⟩ True :=
  kprintf_prints ⟨Nat.zero_le _, hy⟩ h.1 h.2

theorem loadHomeScreen_prints : Prints ⟨0, 0⟩ loadHomeScreen ⟨0, 5⟩ True := by
  refine (homeLine_prints 1 (by decide) (by decide +kernel)).and_then fun _ => ?_
  refine (screenSetColor_prints _ _).and_then fun _ => ?_
  refine (screenSetColor_prints _ _).and_then fun _ => ?_
  refine (screenSetColor_prints _ _).and_then fun _ => ?_
  refine (homeLine_prints 2 (by decide) (by decide +kernel)).and_then fun _ => ?_
  refine (homeLine_prints 3 (by decide) (by decide +kernel)).and_then fun _ => ?_
  refine (homeLine_prints 5 (by decide) (by decide +kernel)).and_then fun _ => ?_
  exact screenSetColor_prints _ _

theorem shellPrintPrompt_prints {y : Nat} (h : (⟨0, y⟩ : Pos).walk (bytesOf "kfs> ") = ⟨5, y⟩ ∧
    (⟨0, y⟩ : Pos).Fits (bytesOf "kfs> ")) (hy : y < screenHeight) :
    Prints ⟨0, y⟩ shellPrintPrompt ⟨5, y⟩ True := by
  refine (kprintf_prints ⟨Nat.zero_le _, hy⟩ h.1 h.2).and_then fun _ => setCur_prints fun s hs => ?_
  exact hs

theorem saveScreen_prints {p : Pos} : Prints p saveScreen p True := by
  intro c hc
  have hset : Prints p (setCur fun s => { s with
      buffer := fun i => if i < screenSize then c.vga.mem i else s.buffer i }) p True := by
    refine setCur_prints fun s hs => ?_
    exact hs
  exact hset c hc

theorem initScreen_bounded (i : Fin maxScreens) (c : Console) :
    ∃ c', initScreen i c = .ok () c' ∧ (c'.states i).pos.In ∧
    (∀ j, j ≠ i → c'.states j = c.states j) ∧
      (InText c → InText c') := by
  obtain ⟨y, hrest, hy⟩ : ∃ y, Prints ⟨0, 0⟩ (do
      screenClear
      if i = 0 then loadHomeScreen
      shellPrintPrompt
      saveScreen
      updateHardwareCursor) ⟨5, y⟩ True ∧ y < screenHeight := by
    have htail : ∀ y, Prints ⟨5, y⟩ (do
        saveScreen
        updateHardwareCursor) ⟨5, y⟩ True :=
      fun y => saveScreen_prints.and_then fun _ => updateHardwareCursor_prints
    by_cases hi : i = 0
    · refine ⟨5, screenClear_prints.and_then fun _ => ?_, by decide⟩
      rw [if_pos hi]
      exact loadHomeScreen_prints.and_then fun _ =>
        (shellPrintPrompt_prints (by decide +kernel) (by decide)).and_then fun _ => htail 5
    · refine ⟨0, screenClear_prints.and_then fun _ => ?_, by decide⟩
      rw [if_neg hi]
      exact (shellPrintPrompt_prints (by decide +kernel) (by decide)).and_then fun _ => htail 0
  obtain ⟨d, hd⟩ : ∃ d : Console, d = { c with
    states := Function.update c.states i ⟨fun j => if j < screenSize then 0
      else (c.states i).buffer j,
      0, 0, 0, 0, 0, 0, initialColor i⟩
    current := i } := ⟨_, rfl⟩
  have hcur : d.current = i := by rw [hd]
  have hpos : d.pos = ⟨0, 0⟩ := by
    unfold Console.pos
    rw [hcur, hd]
    show (Function.update c.states i _ i).pos = _
    rw [Function.update_self]
    rfl
  obtain ⟨c', hr, hm⟩ := hrest d hpos
  refine ⟨c', ?_, ?_, fun j hj => ?_, fun h => hm.inText.mpr ⟨?_, trivial⟩⟩
  · unfold initScreen
    exact (bind_of_ok rfl).trans ((bind_of_ok (t := d) (by rw [hd]; rfl)).trans hr)
  · have hq := hm.pos
    unfold Console.pos at hq
    rw [hm.current, hcur] at hq
    rw [hq]
    exact ⟨show 5 ≤ screenWidth by decide, hy⟩
  · rw [hm.others j (by rw [hcur]; exact hj), hd]
    exact Function.update_of_ne hj _ _
  · rw [hd]
    exact h

theorem PrintStart.ok {c : Console} (h : PrintStart c) : Within c ∧ InText c := by
  obtain ⟨c₀, hw, hr⟩ := h
  obtain ⟨c₁, hr₁, hin₁, -, hw₁⟩ := initScreen_bounded 0 c₀
  obtain ⟨c₂, hr₂, hin₂, ho₂, hw₂⟩ := initScreen_bounded 1 c₁
  obtain ⟨c₃, hr₃, hin₃, ho₃, hw₃⟩ := initScreen_bounded 2 c₂
  have hrun : screenInit c₀ = (do
      setCurrent 0
      showScreen
      updateHardwareCursor : C Unit) c₃ :=
    (bind_of_ok hr₁).trans ((bind_of_ok hr₂).trans (bind_of_ok hr₃))
  rw [hrun] at hr
  have hall : Within c₃ := by
    intro a
    by_cases ha2 : a = 2
    · rw [ha2]
      exact hin₃
    rw [ho₃ a ha2]
    by_cases ha1 : a = 1
    · rw [ha1]
      exact hin₂
    rw [ho₂ a ha1, show a = 0 by revert a; decide]
    exact hin₁
  have hwritten : InText c₃ := hw₃ (hw₂ (hw₁ (by unfold InText; simp [hw])))
  cases hr
  refine ⟨hall, ?_⟩
  show ∀ w ∈ List.range (screenSize / 2) ++ c₃.vga.written, _
  intro w hmem
  rcases List.mem_append.mp hmem with h | h
  · simpa using h
  · exact hwritten w h

/-! ## Runs -/

/-- Every cell written so far is one of the screen's, and the cursor is in a row of it. -/
def BoundsOk (c : Console) : Prop :=
  InText c ∧ (c.states c.current).cursorY < screenHeight

/-- The call prints no visible character at the corner. -/
def TextFits (c : Console) (op : PrintOp) : Prop := c.pos.Fits op.text

/-- A run is given by its calls. -/
def callsFrom : Console → List PrintOp → List (PrintOp × Console)
  | _, [] => []
  | c, op :: ops => (op, afterCall op.run c) :: callsFrom (afterCall op.run c) ops

theorem callsFrom_trace : ∀ (ops : List PrintOp) (c : Console), Trace PrintStep c (callsFrom c ops)
  | [], _ => trivial
  | _ :: ops, _ => ⟨rfl, callsFrom_trace ops _⟩

/-- **When printing stays on the screen.** For every sequence of calls after `screen_init`, all
cells written are the screen's and the cursor is in one of its rows, after every call,
if and only if no call prints a visible character at column 80 of the last row. -/
theorem printing_in_bounds {c : Console} (hc : PrintStart c) (ops : List PrintOp) :
    BoundsOk c ∧ Trace (fun _ _ c' => BoundsOk c') c (callsFrom c ops) ↔
      Meets TextFits c (callsFrom c ops) := by
  obtain ⟨hin, htext⟩ := hc.ok
  have hrun := Trace.iff_meets (I := fun c => Within c ∧ InText c) (G := fun _ _ c' => BoundsOk c')
    (c := TextFits) (fun c op c' hI hs => ?_) (fun c op c' hI hs hfit => ?_) ⟨hin, htext⟩
    (callsFrom_trace ops c)
  · rw [hrun]
    exact and_iff_right ⟨htext, (hin c.current).2⟩
  · cases hs
    have hb := op.run_bounded hI.1
    unfold BoundsOk
    rw [hb.inText, and_assoc]
    refine (and_iff_right hI.2).trans ((and_iff_left ?_).trans Iff.rfl)
    exact (hb.within _).2
  · cases hs
    have hb := op.run_bounded hI.1
    exact ⟨hb.within, hb.inText.mpr ⟨hI.2, hfit⟩⟩

theorem printStart_exists : ∃ c, PrintStart c := by
  obtain ⟨c, hr, -⟩ := screenInit_ok .blank
  exact ⟨c, .blank, rfl, hr⟩

theorem pos_at_corner (c : Console) :
    (afterCall (screenSetCursor 79 24) c).pos = ⟨79, 24⟩ ∧
      (afterCall (screenPutchar 97) (afterCall (screenSetCursor 79 24) c)).pos = Pos.corner := by
  have h₁ : (afterCall (screenSetCursor 79 24) c).pos = ⟨79, 24⟩ :=
    (screenSetCursor_prints (by decide)).after
  refine ⟨h₁, ?_⟩
  have h₂ := screenPutchar_prints (p := ⟨79, 24⟩) ⟨by decide, by decide⟩ 97
  rw [← h₁] at h₂
  rw [h₂.after, h₁]
  decide

/-- A line feed at the corner scrolls. -/
theorem printing_in_bounds_newline : ∃ c, PrintStart c ∧ Trace (fun _ _ c' => BoundsOk c') c
    (callsFrom c [.setCursor 79 24, .putchar 97, .putchar newline]) := by
  obtain ⟨c, hc⟩ := printStart_exists
  obtain ⟨h₁, h₂⟩ := pos_at_corner c
  have hfit : Meets TextFits c (callsFrom c [.setCursor 79 24, .putchar 97, .putchar newline]) := by
    refine ⟨trivial, ?_, ?_, trivial⟩
    · show (afterCall (screenSetCursor 79 24) c).pos.Fits [97]
      rw [h₁]
      decide
    · show (afterCall (screenPutchar 97) (afterCall (screenSetCursor 79 24) c)).pos.Fits [newline]
      rw [h₂]
      decide
  exact ⟨c, hc, ((printing_in_bounds hc _).mpr hfit).2⟩

/-- A second character there is written to cell 2000. -/
theorem putchar_past_screen : ∃ c, PrintStart c ∧
    ∃ w ∈ (lastOf c (callsFrom c [.setCursor 79 24, .putchar 97, .putchar 98])).vga.written,
      screenWidth * screenHeight ≤ w := by
  obtain ⟨c, hc⟩ := printStart_exists
  obtain ⟨hin, -⟩ := hc.ok
  obtain ⟨h₁, h₂⟩ := pos_at_corner c
  have hb₁ := (PrintOp.setCursor 79 24).run_bounded hin
  have hb₂ := (PrintOp.putchar 97).run_bounded hb₁.within
  have hb₃ := (PrintOp.putchar 98).run_bounded hb₂.within
  refine ⟨c, hc, ?_⟩
  by_contra hno
  push Not at hno
  have hfit := (hb₃.inText.mp hno).2
  have hcorner : Pos.corner.Fits [98] := h₂ ▸ hfit
  revert hcorner
  decide

end Kfs
