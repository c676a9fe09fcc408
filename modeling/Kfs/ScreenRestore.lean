import Kfs.ScreenSwitch

/-!
# What a switch back shows

A screen that is not shown is not touched, so what `switch_screen` saved of it is
what it shows again: the text, the cursor and the colour. That the cursor in
the hardware's registers is the same as well needs one more fact: every call
leaves the registers where the current screen's cursor is (`Synced`).
-/

namespace Kfs

open Kfs.Lib

/-! ## The hardware cursor -/

/-- The position in the cursor registers is that of the current screen. -/
def Synced (c : Console) : Prop :=
  c.hardwareCursor =
    ((c.states c.current).cursorY * screenWidth + (c.states c.current).cursorX) % 2 ^ 16

def StaysSynced (c c' : Console) : Prop := Synced c → Synced c'

theorem staysSynced_frame : Frame StaysSynced where
  refl _ h := h
  trans h h' hc := h' (h hc)

/-- Code that ends by writing the registers. -/
def Syncs {α : Type} (x : C α) : Prop := Keeps (fun _ c' => Synced c') x

theorem Syncs.stays {α : Type} {x : C α} (h : Syncs x) : Keeps StaysSynced x :=
  fun c a c' hr _ => h c a c' hr

theorem Syncs.bind {α β : Type} {x : C α} {f : α → C β} (hf : ∀ a, Syncs (f a)) :
    Syncs (x >>= f) := by
  intro c b c' hr
  obtain ⟨a, d, -, hr⟩ := bind_eq_ok.mp hr
  exact hf a d b c' hr

theorem Syncs.ite {α : Type} {p : Prop} [Decidable p] {x y : C α} (hx : Syncs x) (hy : Syncs y) :
    Syncs (if p then x else y) := Keeps.ite hx hy

theorem updateHardwareCursor_syncs : Syncs updateHardwareCursor := by
  intro c _ c' hr
  cases hr
  rfl

theorem setCur_stays {f : ScreenState → ScreenState}
    (hf : ∀ s, (f s).cursorX = s.cursorX ∧ (f s).cursorY = s.cursorY) :
    Keeps StaysSynced (setCur f) := by
  refine .modify fun c hc => ?_
  obtain ⟨hx, hy⟩ := hf (c.states c.current)
  unfold Synced
  dsimp only
  rw [Function.update_self, hx, hy]
  exact hc

theorem screenClear_syncs : Syncs screenClear :=
  .bind fun _ => .bind fun _ => updateHardwareCursor_syncs

theorem screenSetColor_syncs (fg bg : VgaColor) : Syncs (screenSetColor fg bg) :=
  .bind fun _ => updateHardwareCursor_syncs

theorem screenPutchar_syncs (b : BitVec 8) : Syncs (screenPutchar b) := by
  have hend : Syncs (do
      if (← cur).cursorX > screenWidth then
        setCur fun s => { s with cursorX := 0, cursorY := s.cursorY + 1 }
      if (← cur).cursorY ≥ screenHeight then
        screenScroll
      updateHardwareCursor) := by
    have hscroll : Syncs (do
        if (← cur).cursorY ≥ screenHeight then
          screenScroll
        updateHardwareCursor) :=
      .bind fun _ => .ite (.bind fun _ => updateHardwareCursor_syncs) updateHardwareCursor_syncs
    exact .bind fun _ => .ite (.bind fun _ => hscroll) hscroll
  refine .bind fun s => .ite ?_ (.ite (.ite ?_ ?_) ?_)
  · exact .bind fun _ => hend
  · exact .bind fun _ => .bind fun _ => hend
  · exact hend
  · exact .bind fun _ => .bind fun _ => hend

theorem screenPutstring_stays : ∀ str, Keeps StaysSynced (screenPutstring str)
  | [] => .pure staysSynced_frame ()
  | b :: str => .bind staysSynced_frame (screenPutchar_syncs b).stays fun _ =>
      screenPutstring_stays str

theorem runOut_stays : ∀ out, Keeps StaysSynced (runOut out)
  | [] => .pure staysSynced_frame ()
  | .char b :: out => .bind staysSynced_frame (screenPutchar_syncs b).stays fun _ =>
      runOut_stays out
  | .clear :: out => .bind staysSynced_frame screenClear_syncs.stays fun _ => runOut_stays out

theorem placeCursor_syncs (fit : Nat → C Nat) : Syncs (placeCursor fit) :=
  .bind fun _ => .bind fun _ => .bind fun _ => updateHardwareCursor_syncs

theorem shellPrintPrompt_stays : Keeps StaysSynced shellPrintPrompt :=
  .bind staysSynced_frame (screenPutstring_stays _) fun _ => setCur_stays fun _ => ⟨rfl, rfl⟩

theorem inputNewline_stays (out : List Out) : Keeps StaysSynced (inputNewline out) := by
  have hset : ∀ i, Keeps StaysSynced (bufSet i 0) :=
    fun i => .ite (setCur_stays fun _ => ⟨rfl, rfl⟩) (.throw _)
  have hcur : Keeps StaysSynced cur :=
    .bind staysSynced_frame (.get staysSynced_frame) fun _ => .pure staysSynced_frame _
  have hshell : ∀ input, Keeps StaysSynced (shellProcessInput input out) := fun input =>
    .ite (.bind staysSynced_frame (runOut_stays out) fun _ => shellPrintPrompt_stays)
      shellPrintPrompt_stays
  have hend : Keeps StaysSynced (setCur fun s => { s with inputLength := 0, inputCursor := 0 }) :=
    setCur_stays fun _ => ⟨rfl, rfl⟩
  refine .bind staysSynced_frame hcur fun s => .bind staysSynced_frame (hset _) fun _ =>
    .bind staysSynced_frame (screenPutchar_syncs _).stays fun _ =>
      .bind staysSynced_frame hcur fun t => .ite ?_ ?_
  · exact .bind staysSynced_frame (hshell _) fun _ => hend
  · exact .bind staysSynced_frame shellPrintPrompt_stays fun _ => hend

theorem switchScreen_stays (n : Int) : Keeps StaysSynced (switchScreen n) := by
  unfold switchScreen
  split
  · exact .bind staysSynced_frame (.get staysSynced_frame) fun _ =>
      .ite (Syncs.stays (.bind fun _ => .bind fun _ => .bind fun _ => updateHardwareCursor_syncs))
        (.pure staysSynced_frame ())
  · exact .pure staysSynced_frame ()

/-- **Every call** leaves the registers at the cursor. -/
theorem ConsoleOp.run_stays (op : ConsoleOp) : Keeps StaysSynced op.run := by
  have hcur : Keeps StaysSynced cur :=
    .bind staysSynced_frame (.get staysSynced_frame) fun _ => .pure staysSynced_frame _
  have hskip : Keeps StaysSynced (pure () : C Unit) := .pure staysSynced_frame ()
  cases op with
  | putchar b => exact (screenPutchar_syncs b).stays
  | clear => exact screenClear_syncs.stays
  | setCursor x y => exact .ite (Syncs.stays (.bind fun _ => updateHardwareCursor_syncs)) hskip
  | setColor fg bg => exact (screenSetColor_syncs fg bg).stays
  | insert b =>
    refine .ite (.bind staysSynced_frame hcur fun s => .ite (Syncs.stays ?_) hskip) hskip
    exact .bind fun _ => .bind fun _ => .bind fun _ => .bind fun _ => .bind fun _ => .bind fun _ =>
      placeCursor_syncs scrollInto
  | delete =>
    refine .bind staysSynced_frame hcur fun s => .ite (Syncs.stays ?_) hskip
    exact .bind fun _ => .bind fun _ => .bind fun _ => .bind fun _ => .bind fun _ =>
      placeCursor_syncs pure
  | left =>
    exact .bind staysSynced_frame hcur fun s =>
      .ite (Syncs.stays (.bind fun _ => placeCursor_syncs pure)) hskip
  | right =>
    exact .bind staysSynced_frame hcur fun s =>
      .ite (Syncs.stays (.bind fun _ => placeCursor_syncs pure)) hskip
  | newline out => exact inputNewline_stays out
  | prompt => exact shellPrintPrompt_stays
  | switch n => exact switchScreen_stays n

theorem reach_synced {c : Console} (h : Reach ConsoleStart ConsoleStep c) : Synced c := by
  refine Reach.inv (I := Synced) (fun c hc => ?_) (fun c op c' hI hs => ?_) h
  · obtain ⟨c₀, hc₀⟩ := hc
    have hinit : Syncs screenInit := .bind fun _ => .bind fun _ => .bind fun _ => .bind fun _ =>
      .bind fun _ => updateHardwareCursor_syncs
    exact hinit c₀ () c hc₀
  · exact op.run_stays c () c' hs hI

/-! ## Leaving and coming back -/

theorem switchScreen_shows {c c' : Console} {i : Fin maxScreens} (hi : c.current ≠ i)
    (hr : switchScreen i c = .ok () c') :
    (∀ k, k < screenSize → c'.vga.mem k = (c.states i).buffer k) ∧ Synced c' := by
  have hrange : 0 ≤ (i : Int) ∧ (i : Int) < maxScreens := ⟨by omega, by omega⟩
  unfold switchScreen at hr
  rw [dif_pos hrange, get_bind_apply] at hr
  simp only [Int.toNat_natCast, ne_eq, hi, not_false_eq_true, ↓reduceIte] at hr
  cases hr
  refine ⟨fun k hk => ?_, rfl⟩
  refine (if_pos hk).trans ?_
  show (Function.update c.states c.current _ i).buffer k = _
  rw [Function.update_of_ne hi.symm]

/-- **A switch back restores the display.** In every reachable state, for every other
screen and every work done away from the current screen: coming back shows the
2000 cells, the cursor and the colour that were there on leaving. -/
theorem display_restored {c : Console} (hc : Reach ConsoleStart ConsoleStep c) {n : Fin maxScreens}
    (hn : c.current ≠ n) {ops : List ConsoleOp} (hops : ∀ op ∈ ops, op ≠ .switch c.current) :
    ∃ c', runOps (.switch n :: ops ++ [.switch c.current]) c = .ok () c' ∧
      c'.current = c.current ∧
      (∀ i, i < screenWidth * screenHeight → c'.vga.cell i = c.vga.cell i) ∧
      (c'.states c.current).cursorX = (c.states c.current).cursorX ∧
      (c'.states c.current).cursorY = (c.states c.current).cursorY ∧
      (c'.states c.current).color = (c.states c.current).color ∧
      c'.hardwareCursor = c.hardwareCursor := by
  obtain ⟨c₂, c', hr, hcur, hself, hne, hsaved, hlast⟩ :=
    there_and_back (reach_linesOk hc) hn ops hops
  obtain ⟨hshow, hsync⟩ := switchScreen_shows hne hlast
  have hmem : ∀ k, k < screenSize → c'.vga.mem k = c.vga.mem k := by
    intro k hk
    rw [hshow k hk, hsaved]
    exact if_pos hk
  refine ⟨c', hr, hcur, fun i hi => ?_, by rw [hself]; rfl, by rw [hself]; rfl,
    by rw [hself]; rfl, ?_⟩
  · unfold Vga.cell
    simp only [screenWidth, screenHeight, screenSize] at hi hmem
    rw [hmem _ (by omega), hmem _ (by omega)]
  · have hc' := reach_synced hc
    unfold Synced at hsync hc'
    rw [hsync, hcur, hself, hc']
    rfl

/-- Work on the two other screens leaves the first one's display alone. -/
theorem display_restored_home : ∃ c c', Reach ConsoleStart ConsoleStep c ∧ c.current = 0 ∧
    runOps [.switch 1, .insert 120, .clear, .switch 2, .newline [], .switch 0] c = .ok () c' ∧
    (∀ i, i < screenWidth * screenHeight → c'.vga.cell i = c.vga.cell i) ∧
    c'.hardwareCursor = c.hardwareCursor := by
  obtain ⟨c, -, hr, hk, -⟩ := screenInit_two .blank
  have hc : Reach ConsoleStart ConsoleStep c := .init ⟨_, hr⟩
  have hops : ∀ op ∈ [ConsoleOp.insert 120, .clear, .switch 2, .newline []],
      op ≠ .switch c.current := by
    rw [hk]
    simp
  obtain ⟨c', hr', -, hcells, -, -, -, hpos⟩ :=
    display_restored hc (n := 1) (by rw [hk]; decide) hops
  rw [hk] at hr'
  exact ⟨c, c', hc, hk, hr', hcells, hpos⟩

end Kfs
