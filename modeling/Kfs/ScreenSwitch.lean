import Kfs.ScreenInv

/-!
# Does a switch keep the typed line?

`switch_screen` copies the screen's image over `buffer`, where the typed line is.
Away from it the screen is left alone, so what the line is when the user comes
back is decided at the moment of leaving: it survives exactly when the image's
first bytes happen to spell it.
-/

namespace Kfs

open Kfs.Lib

/-! ## Runs -/

/-- A call on the current screen, or a switch. -/
inductive ConsoleOp where
  | putchar (c : BitVec 8)
  | clear
  | setCursor (x y : Nat)
  | setColor (fg bg : VgaColor)
  | insert (c : BitVec 8)
  | delete
  | left
  | right
  /-- Enter, with the output of the command it runs. -/
  | newline (out : List Out)
  | prompt
  | switch (n : Int)

def ConsoleOp.run : ConsoleOp → C Unit
  | .putchar c => screenPutchar c
  | .clear => screenClear
  | .setCursor x y => screenSetCursor x y
  | .setColor fg bg => screenSetColor fg bg
  | .insert c => inputInsertCharAtCursor c
  | .delete => inputDeleteCharAtCursor
  | .left => inputMoveCursorLeft
  | .right => inputMoveCursorRight
  | .newline out => inputNewline out
  | .prompt => shellPrintPrompt
  | .switch n => switchScreen n

def runOps : List ConsoleOp → C Unit
  | [] => pure ()
  | op :: ops => do
    op.run
    runOps ops

def ConsoleStart (c : Console) : Prop := ∃ c₀, screenInit c₀ = .ok () c

def ConsoleStep (c : Console) (op : ConsoleOp) (c' : Console) : Prop := op.run c = .ok () c'

/-! ## Steps -/

def LinesOk (c : Console) : Prop := ∀ a, LineOk (c.states a)

theorem Touches.linesOk {c c' : Console} (h : LinesOk c) (ht : Touches (fun _ s => LineOk s) c c') :
    LinesOk c' := by
  intro a
  by_cases ha : a = c.current
  · rw [ha]
    exact ht.keep
  · rw [ht.others a ha]
    exact h a

theorem draws_lineOk {x : C Unit} (hx : Total (Touches SameText) x) {c : Console} (h : LinesOk c) :
    ∃ c', x c = .ok () c' ∧ Touches (fun _ s => LineOk s) c c' := by
  obtain ⟨_, c', hr, ht⟩ := hx c
  refine ⟨c', hr, ht.current, ht.others, ?_⟩
  have hk := h c.current
  obtain ⟨-, h1, h2⟩ := ht.keep
  unfold LineOk at hk ⊢
  omega

theorem lineOk_refl {c : Console} (h : LinesOk c) : Touches (fun _ s => LineOk s) c c :=
  ⟨rfl, fun _ _ => rfl, h c.current⟩

theorem Touches.lineOk {c c' : Console} {L k : Nat} (ht : Touches (fun _ s => LineAt L k s) c c')
    (hk : k ≤ L) (hL : L < screenSize) : Touches (fun _ s => LineOk s) c c' :=
  ht.mono fun _ _ h => by
    obtain ⟨h1, h2⟩ := h
    unfold LineOk
    omega

/-- **Every call but a switch** returns, on the current screen only. -/
theorem ConsoleOp.run_touches {c : Console} (h : LinesOk c) (op : ConsoleOp)
    (hop : ∀ n, op ≠ .switch n) :
    ∃ c', op.run c = .ok () c' ∧ Touches (fun _ s => LineOk s) c c' := by
  obtain ⟨hk, hL⟩ := h c.current
  cases op with
  | putchar b => exact draws_lineOk (screenPutchar_draws b) h
  | clear => exact draws_lineOk screenClear_draws h
  | setCursor x y => exact draws_lineOk (screenSetCursor_draws x y) h
  | setColor fg bg => exact draws_lineOk (screenSetColor_draws fg bg) h
  | insert b =>
    by_cases hb : 32 ≤ b.toNat ∧ b.toNat ≤ 126
    swap
    · exact ⟨c, insert_refused (.inl hb), lineOk_refl h⟩
    by_cases hroom : (c.states c.current).inputLength < screenSize - 1
    · obtain ⟨c', hr, ht⟩ := insert_ok ⟨rfl, rfl, rfl⟩ hk hroom hb
      exact ⟨c', hr, ht.lineAt.lineOk (by omega) (by omega)⟩
    · exact ⟨c, insert_refused (.inr hroom), lineOk_refl h⟩
  | delete =>
    by_cases hpos : 0 < (c.states c.current).inputCursor
    · obtain ⟨c', hr, ht⟩ := delete_ok ⟨rfl, rfl, rfl⟩ hk hL hpos
      exact ⟨c', hr, ht.lineAt.lineOk (by omega) (by omega)⟩
    · exact ⟨c, delete_refused fun h => hpos h.1, lineOk_refl h⟩
  | left =>
    by_cases hpos : 0 < (c.states c.current).inputCursor
    · obtain ⟨c', hr, ht⟩ := move_ok (c := c) ⟨rfl, rfl, rfl⟩
        (f := fun s => { s with inputCursor := s.inputCursor - 1 })
        fun s hs => ⟨hs.1, congrArg (· - 1) hs.2.1, hs.2.2⟩
      exact ⟨c', (left_eq hpos).trans hr, ht.lineAt.lineOk (by omega) hL⟩
    · exact ⟨c, left_refused hpos, lineOk_refl h⟩
  | right =>
    by_cases hpos : (c.states c.current).inputCursor < (c.states c.current).inputLength
    · obtain ⟨c', hr, ht⟩ := move_ok (c := c) ⟨rfl, rfl, rfl⟩
        (f := fun s => { s with inputCursor := s.inputCursor + 1 })
        fun s hs => ⟨hs.1, congrArg (· + 1) hs.2.1, hs.2.2⟩
      exact ⟨c', (right_eq hpos).trans hr, ht.lineAt.lineOk (by omega) hL⟩
    · exact ⟨c, right_refused hpos, lineOk_refl h⟩
  | newline out =>
    obtain ⟨c', hr, ht⟩ := newline_ok out hL
    exact ⟨c', hr, ht.lineOk (by omega) (by decide)⟩
  | prompt =>
    obtain ⟨c', hr, ht⟩ := prompt_ok c
    exact ⟨c', hr, ht.lineOk (by omega) (by decide)⟩
  | switch n => exact absurd rfl (hop n)

/-- The current screen as a switch leaves it. -/
def Console.saved (c : Console) : ScreenState :=
  { c.states c.current with
    buffer := fun i => if i < screenSize then c.vga.mem i else (c.states c.current).buffer i }

/-- **A switch to another screen** overwrites the current screen's buffer with its
image, and nothing else of any screen. -/
theorem switchScreen_other {c : Console} {i : Fin maxScreens} (hi : c.current ≠ i) :
    ∃ c', switchScreen i c = .ok () c' ∧ c'.current = i ∧ c'.states c.current = c.saved ∧
      ∀ j, j ≠ c.current → c'.states j = c.states j := by
  have hrange : 0 ≤ (i : Int) ∧ (i : Int) < maxScreens := ⟨by omega, by omega⟩
  unfold switchScreen
  rw [dif_pos hrange, get_bind_apply]
  simp only [Int.toNat_natCast, ne_eq, hi, not_false_eq_true, ↓reduceIte]
  refine ⟨_, rfl, rfl, ?_, fun j hj => ?_⟩
  · exact Function.update_self _ _ _
  · exact Function.update_of_ne hj _ _

theorem switchScreen_stay {c : Console} {n : Int}
    (hn : ∀ i : Fin maxScreens, n = i → c.current = i) :
    switchScreen n c = .ok () c := by
  unfold switchScreen
  split
  · next h =>
    rw [get_bind_apply]
    have := hn ⟨n.toNat, by omega⟩ (by simp only; omega)
    rw [if_neg (by simpa using this)]
    rfl
  · rfl

/-- **Every call** returns; a screen that is not shown stays as it is, until a switch
shows it. -/
theorem ConsoleOp.run_ok {c : Console} (h : LinesOk c) (op : ConsoleOp) :
    ∃ c', op.run c = .ok () c' ∧ LinesOk c' ∧ ∀ a : Fin maxScreens, a ≠ c.current →
      op ≠ .switch a → a ≠ c'.current ∧ c'.states a = c.states a := by
  by_cases hsw : ∃ n, op = .switch n
  swap
  · obtain ⟨c', hr, ht⟩ := run_touches h op fun n hn => hsw ⟨n, hn⟩
    exact ⟨c', hr, ht.linesOk h, fun a ha _ => ⟨by rw [ht.current]; exact ha, ht.others a ha⟩⟩
  obtain ⟨n, rfl⟩ := hsw
  by_cases hgo : ∃ i : Fin maxScreens, n = i ∧ c.current ≠ i
  · obtain ⟨i, rfl, hi⟩ := hgo
    obtain ⟨c', hr, hcur, hself, hother⟩ := switchScreen_other hi
    refine ⟨c', hr, fun a => ?_, fun a ha hne => ⟨?_, hother a ha⟩⟩
    · by_cases ha : a = c.current
      · rw [ha, hself]
        exact h c.current
      · rw [hother a ha]
        exact h a
    · rw [hcur]
      rintro rfl
      exact hne rfl
  · refine ⟨c, switchScreen_stay fun i hi => ?_, h, fun a ha _ => ⟨ha, rfl⟩⟩
    by_contra hne
    exact hgo ⟨i, hi, hne⟩

theorem runOps_ok : ∀ (ops : List ConsoleOp) {c : Console}, LinesOk c →
    ∃ c', runOps ops c = .ok () c' ∧ LinesOk c' ∧ ∀ a : Fin maxScreens, a ≠ c.current →
      (∀ op ∈ ops, op ≠ .switch a) → a ≠ c'.current ∧ c'.states a = c.states a
  | [], c, h => ⟨c, rfl, h, fun _ ha _ => ⟨ha, rfl⟩⟩
  | op :: ops, c, h => by
    obtain ⟨c₁, hr₁, h₁, hk₁⟩ := op.run_ok h
    obtain ⟨c₂, hr₂, h₂, hk₂⟩ := runOps_ok ops h₁
    refine ⟨c₂, (bind_of_ok hr₁).trans hr₂, h₂, fun a ha hops => ?_⟩
    obtain ⟨hne, hs⟩ := hk₁ a ha (hops op List.mem_cons_self)
    obtain ⟨hne', hs'⟩ := hk₂ a hne fun o ho => hops o (List.mem_cons_of_mem _ ho)
    exact ⟨hne', hs'.trans hs⟩

/-! ## `screen_init` -/

theorem loadHomeScreen_draws : Total (Touches SameText) loadHomeScreen :=
  .bind drawing (screenPutstring_draws _) fun _ => .bind drawing (screenSetColor_draws _ _) fun _ =>
    .bind drawing (screenSetColor_draws _ _) fun _ => .bind drawing (screenSetColor_draws _ _)
      fun _ => .bind drawing (screenPutstring_draws _) fun _ => .bind drawing
        (screenPutstring_draws _) fun _ => .bind drawing (screenPutstring_draws _) fun _ =>
          screenSetColor_draws _ _

theorem saveScreen_total : Total (Touches SameCounts) saveScreen :=
  .bind editing (.get editing) fun _ => setCur_total fun _ => ⟨rfl, rfl⟩

theorem initScreen_ok (i : Fin maxScreens) (c : Console) :
    ∃ c', initScreen i c = .ok () c' ∧ LineAt 0 0 (c'.states i) ∧
      ∀ j, j ≠ i → c'.states j = c.states j := by
  obtain ⟨c₁, hc₁⟩ : ∃ c₁ : Console, c₁ = { c with
    states := Function.update c.states i ⟨fun j => if j < screenSize then 0
      else (c.states i).buffer j,
      0, 0, 0, 0, 0, 0, initialColor i⟩
    current := i } := ⟨_, rfl⟩
  have hdraw : Total (Touches SameText) (do
      screenClear
      if i = 0 then loadHomeScreen) :=
    .bind drawing screenClear_draws fun _ => .ite (fun _ => loadHomeScreen_draws)
      fun _ => .pure drawing ()
  obtain ⟨_, c₂, hr₂, ht₂⟩ := hdraw c₁
  obtain ⟨c₃, hr₃, ht₃⟩ := prompt_ok c₂
  obtain ⟨_, c₄, hr₄, ht₄⟩ := saveScreen_total c₃
  obtain ⟨_, c₅, hr₅, ht₅⟩ := updateHardwareCursor_draws c₄
  have ht : Touches (fun _ s => LineAt 0 0 s) c₁ c₅ := by
    have h₂ : Touches (fun _ _ => True) c₁ c₂ := ht₂.mono fun _ _ _ => trivial
    exact ((h₂.followed ht₃ fun _ _ _ h => h).counts ht₄).draws ht₅
  have hcur : c₁.current = i := by rw [hc₁]
  refine ⟨c₅, ?_, hcur ▸ ht.keep, fun j hj => ?_⟩
  · unfold initScreen
    refine (bind_of_ok rfl).trans ((bind_of_ok (t := c₁) (by rw [hc₁]; rfl)).trans ?_)
    obtain ⟨_, d, h1, h2⟩ := bind_eq_ok.mp hr₂
    have hrest : (do
        shellPrintPrompt
        saveScreen
        updateHardwareCursor : C Unit) c₂ = .ok () c₅ := by
      rw [bind_of_ok hr₃, bind_of_ok hr₄, hr₅]
    rw [bind_of_ok h1]
    by_cases hi : i = 0
    · rw [if_pos hi] at h2 ⊢
      rw [bind_of_ok h2]
      exact hrest
    · rw [if_neg hi] at h2 ⊢
      cases h2
      exact hrest
  · rw [ht.others j (by rw [hcur]; exact hj), hc₁]
    exact Function.update_of_ne hj _ _

/-- **`screen_init`** returns, with three empty lines and the first screen shown. -/
theorem screenInit_empty (c : Console) :
    ∃ c', screenInit c = .ok () c' ∧ c'.current = 0 ∧ ∀ a, LineAt 0 0 (c'.states a) := by
  obtain ⟨c₁, hr₁, h₁, -⟩ := initScreen_ok 0 c
  obtain ⟨c₂, hr₂, h₂, ho₂⟩ := initScreen_ok 1 c₁
  obtain ⟨c₃, hr₃, h₃, ho₃⟩ := initScreen_ok 2 c₂
  refine ⟨_, (bind_of_ok hr₁).trans ((bind_of_ok hr₂).trans ((bind_of_ok hr₃).trans rfl)), rfl, ?_⟩
  intro a
  show LineAt 0 0 (c₃.states a)
  by_cases ha2 : a = 2
  · rw [ha2]
    exact h₃
  rw [ho₃ a ha2]
  by_cases ha1 : a = 1
  · rw [ha1]
    exact h₂
  rw [ho₂ a ha1, show a = 0 by revert a; decide]
  exact h₁

theorem screenInit_ok (c : Console) : ∃ c', screenInit c = .ok () c' ∧ LinesOk c' := by
  obtain ⟨c', hr, -, hall⟩ := screenInit_empty c
  refine ⟨c', hr, fun a => ?_⟩
  obtain ⟨h1, h2⟩ := hall a
  exact ⟨by show (c'.states a).inputCursor ≤ (c'.states a).inputLength; omega,
    by show (c'.states a).inputLength < screenSize; rw [h1]; decide⟩

theorem reach_linesOk {c : Console} (h : Reach ConsoleStart ConsoleStep c) : LinesOk c := by
  refine Reach.inv (I := LinesOk) (fun c hc => ?_) (fun c op c' hI hs => ?_) h
  · obtain ⟨c₀, hc₀⟩ := hc
    obtain ⟨c', hr, hok⟩ := screenInit_ok c₀
    rw [hr] at hc₀
    injection hc₀ with _ hc
    exact hc ▸ hok
  · obtain ⟨c'', hr, hok, -⟩ := op.run_ok hI
    have hs : op.run c = .ok () c' := hs
    rw [hr] at hs
    injection hs with _ hc
    exact hc ▸ hok

theorem reach_runOps : ∀ {ops : List ConsoleOp} {c c' : Console}, Reach ConsoleStart ConsoleStep c →
    runOps ops c = .ok () c' → Reach ConsoleStart ConsoleStep c'
  | [], _, _, h, hr => by
    cases hr
    exact h
  | op :: ops, _, _, h, hr => by
    obtain ⟨_, d, h1, h2⟩ := bind_eq_ok.mp hr
    exact reach_runOps (h.step h1) h2

/-! ## The typed line -/

/-- The line Enter hands to the shell. -/
def commandLine (s : ScreenState) : List (BitVec 8) :=
  cString (storeByte s.buffer s.inputLength 0) 0 screenSize

theorem cString_congr {m m' : Mem} {L : Nat} (hm : ∀ i, i < L → m' i = m i) (h0 : m L = 0)
    (h0' : m' L = 0) : ∀ {n a : Nat}, a ≤ L → cString m' a n = cString m a n
  | 0, _, _ => rfl
  | n + 1, a, ha => by
    unfold cString
    by_cases haL : a = L
    · rw [haL, if_pos h0, if_pos h0']
    · rw [hm a (by omega), cString_congr hm h0 h0' (n := n) (a := a + 1) (by omega)]

/-- **Enter submits the line**: what `shell_process_input` gets is `commandLine`. -/
theorem inputNewline_submits {c : Console} (hL : (c.states c.current).inputLength < screenSize)
    (hpos : 0 < (c.states c.current).inputLength) (out : List Out) :
    ∃ c₂, inputNewline out c = (do
      shellProcessInput (commandLine (c.states c.current)) out
      setCur fun s => { s with inputLength := 0, inputCursor := 0 } : C Unit) c₂ := by
  have hset : bufSet (c.states c.current).inputLength 0 c = .ok () (c.setCur fun s =>
      { s with buffer := storeByte s.buffer (c.states c.current).inputLength 0 }) := by
    unfold bufSet
    rw [if_pos hL]
    rfl
  obtain ⟨_, c₂, hr₂, ht₂⟩ := screenPutchar_draws newline (c.setCur fun s =>
    { s with buffer := storeByte s.buffer (c.states c.current).inputLength 0 })
  have hcur : c₂.current = c.current := ht₂.current
  obtain ⟨hb, hl, -⟩ := ht₂.keep
  rw [Console.setCur_current, Console.setCur_self] at hb hl
  have hl : (c₂.states c.current).inputLength = (c.states c.current).inputLength := hl
  refine ⟨c₂, ?_⟩
  unfold inputNewline
  rw [cur_bind, bind_of_ok hset, bind_of_ok hr₂, cur_bind, hcur,
    if_pos (by rw [hl]; exact hpos), hb]
  rfl

/-- The line of `s'` is that of `s`, and so is what Enter submits. -/
structure SameLine (s s' : ScreenState) : Prop where
  length : s'.inputLength = s.inputLength
  cursor : s'.inputCursor = s.inputCursor
  bytes : ∀ i, i < s.inputLength → s'.buffer i = s.buffer i
  submit : commandLine s' = commandLine s

/-- A screen that was left keeps its line exactly when the first bytes of its image are
the line. -/
theorem saved_sameLine {c : Console} (h : LineOk (c.states c.current)) :
    SameLine (c.states c.current) c.saved ↔
      ∀ i, i < (c.states c.current).inputLength → c.vga.mem i = (c.states c.current).buffer i := by
  obtain ⟨-, hL⟩ := h
  have hbyte : ∀ i, i < (c.states c.current).inputLength → c.saved.buffer i = c.vga.mem i :=
    fun i hi => if_pos (by omega)
  constructor
  · intro hs i hi
    rw [← hbyte i hi, hs.bytes i hi]
  · intro hv
    have hb : ∀ i, i < (c.states c.current).inputLength →
        c.saved.buffer i = (c.states c.current).buffer i :=
      fun i hi => (hbyte i hi).trans (hv i hi)
    refine ⟨rfl, rfl, hb, ?_⟩
    refine cString_congr (L := (c.states c.current).inputLength) (fun i hi => ?_)
      (storeByte_same _ _ _) (storeByte_same _ _ _) (Nat.zero_le _)
    rw [storeByte_other (by show i ≠ (c.states c.current).inputLength; omega),
      storeByte_other (by omega)]
    exact hb i hi

theorem commandLine_single {s : ScreenState} (hl : s.inputLength = 1) (hb : s.buffer 0 ≠ 0) :
    commandLine s = [s.buffer 0] := by
  have h0 : storeByte s.buffer 1 0 0 = s.buffer 0 := storeByte_other (by omega)
  have h1 : storeByte s.buffer 1 0 1 = 0 := storeByte_same _ _ _
  unfold commandLine
  rw [hl, show screenSize = 3998 + 1 + 1 from rfl, cString, h0, if_neg hb, cString, if_pos h1]

/-- The screen after leaving it, working elsewhere and coming back; `c₂` is the state
before the last switch. -/
theorem there_and_back {c : Console} (h : LinesOk c) {n : Fin maxScreens} (hn : c.current ≠ n)
    (ops : List ConsoleOp) (hops : ∀ op ∈ ops, op ≠ .switch c.current) :
    ∃ c₂ c', runOps (.switch n :: ops ++ [.switch c.current]) c = .ok () c' ∧
      c'.current = c.current ∧ c'.states c.current = c.saved ∧
      c₂.current ≠ c.current ∧ c₂.states c.current = c.saved ∧
      switchScreen c.current c₂ = .ok () c' := by
  obtain ⟨c₁, hr₁, hcur₁, hself₁, -⟩ := switchScreen_other hn
  obtain ⟨c₁', hr₁', hok₁, -⟩ := (ConsoleOp.switch n).run_ok h
  have hr₁' : switchScreen n c = .ok () c₁' := hr₁'
  rw [hr₁] at hr₁'
  injection hr₁' with _ he
  subst he
  obtain ⟨c₂, hr₂, hok₂, hk₂⟩ := runOps_ok ops hok₁
  obtain ⟨hne, hs₂⟩ := hk₂ c.current (by rw [hcur₁]; exact hn) hops
  obtain ⟨c₃, hr₃, hcur₃, -, hother₃⟩ := switchScreen_other (c := c₂) hne.symm
  have happ : ∀ (os : List ConsoleOp) {d d' : Console}, runOps os d = .ok () d' → ∀ os',
      runOps (os ++ os') d = runOps os' d' := by
    intro os
    induction os with
    | nil => rintro d d' hr os'; cases hr; rfl
    | cons o os ih =>
      rintro d d' hr os'
      obtain ⟨_, e, h1, h2⟩ := bind_eq_ok.mp hr
      exact (bind_of_ok h1).trans (ih h2 os')
  have hsaved : c₂.states c.current = c.saved := by rw [hs₂, hself₁]
  refine ⟨c₂, c₃, ?_, hcur₃, ?_, hne.symm, hsaved, hr₃⟩
  · rw [happ (.switch n :: ops) ((bind_of_ok hr₁).trans hr₂)]
    exact (bind_of_ok hr₃).trans rfl
  · rw [hother₃ _ hne, hsaved]

/-! ## A line on screen 2 -/

/-- The prompt at the top left: its first character is the first byte of the image. -/
theorem prompt_top {c : Console} {buf : Mem} {col : BitVec 8}
    (h : c.states c.current = ⟨buf, 0, 0, 0, 0, 0, 0, col⟩) :
    ∃ c', shellPrintPrompt c = .ok () c' ∧ c'.current = c.current ∧
      c'.states c.current = ⟨buf, 5, 0, 0, 0, 5, 0, col⟩ ∧ c'.vga.mem 0 = 107 := by
  obtain ⟨c₁, hr₁, hk₁, hs₁, hv₁⟩ := screenPutchar_plain (c := c) (b := 107) (by decide)
    (by simp [h]) (by simp [h])
  have hself₁ : c₁.states c₁.current = ⟨buf, 1, 0, 0, 0, 0, 0, col⟩ := by
    rw [hs₁, hk₁, Console.setCur_self, h]
  obtain ⟨c₂, hr₂, hk₂, hs₂, hv₂⟩ := screenPutstring_plain (bytesOf "fs> ") (c := c₁)
    (by decide) (by simp [hself₁, bytesOf]) (by simp [hself₁])
  have hself₂ : c₂.states c₂.current = ⟨buf, 5, 0, 0, 0, 0, 0, col⟩ := by
    rw [hs₂, hk₂, Console.setCur_self, hself₁]
    rfl
  have hr : kprintf "kfs> " c = .ok () c₂ := (bind_of_ok hr₁).trans hr₂
  refine ⟨_, (bind_of_ok hr).trans (setCur_apply _ _), hk₂.trans hk₁, ?_, ?_⟩
  · rw [← hk₁, ← hk₂, Console.setCur_self, hself₂]
  · rw [hself₁] at hv₂
    show c₂.vga.mem 0 = 107
    rw [hv₂ 0 (by simp), hv₁, h]
    exact Vga.set_char

/-- `screen_init` leaves screen 2 with the prompt at the top left of its image. -/
theorem screenInit_two (c : Console) : ∃ c' buf, screenInit c = .ok () c' ∧ c'.current = 0 ∧
    c'.states 2 = ⟨buf, 5, 0, 0, 0, 5, 0, initialColor 2⟩ ∧ buf 0 = 107 := by
  obtain ⟨c₁, hr₁, -, -⟩ := initScreen_ok 0 c
  obtain ⟨c₂, hr₂, -, -⟩ := initScreen_ok 1 c₁
  obtain ⟨c₃, hc₃⟩ : ∃ c₃ : Console, c₃ = { c₂ with
    states := Function.update c₂.states 2 ⟨fun j => if j < screenSize then 0 else
      (c₂.states 2).buffer j, 0, 0, 0, 0, 0, 0, initialColor 2⟩
    current := 2 } := ⟨_, rfl⟩
  obtain ⟨c₄, hr₄, hk₄, hs₄⟩ := screenClear_states c₃
  have hcur : c₃.current = 2 := by rw [hc₃]
  have hself₄ : c₄.states c₄.current = ⟨fun j => if j < screenSize then 0 else
      (c₂.states 2).buffer j, 0, 0, 0, 0, 0, 0, initialColor 2⟩ := by
    rw [hs₄, hk₄, Console.setCur_self, hc₃]
    dsimp only
    rw [Function.update_self]
  obtain ⟨c₅, hr₅, hk₅, hs₅, hv₅⟩ := prompt_top hself₄
  rw [hk₄, hcur] at hk₅ hs₅
  have hr₃ : initScreen 2 c₂ = (do
      saveScreen
      updateHardwareCursor : C Unit) c₅ := by
    unfold initScreen
    refine (bind_of_ok rfl).trans ((bind_of_ok (t := c₃) (by rw [hc₃]; rfl)).trans ?_)
    rw [bind_of_ok hr₄]
    exact bind_of_ok hr₅
  refine ⟨_, fun i => if i < screenSize then c₅.vga.mem i else (c₅.states c₅.current).buffer i,
    (bind_of_ok hr₁).trans ((bind_of_ok hr₂).trans ((bind_of_ok (hr₃.trans rfl)).trans rfl)),
    rfl, ?_, hv₅⟩
  show Function.update c₅.states c₅.current _ 2 = _
  rw [hk₅, Function.update_self, hs₅]


/-- Typing `b` on screen 2 right after `screen_init`. The image still starts with the
prompt. -/
theorem typed_on_two {c : Console} {buf : Mem} {col b : BitVec 8} (hcur : c.current = 0)
    (h2 : c.states 2 = ⟨buf, 5, 0, 0, 0, 5, 0, col⟩) (h0 : buf 0 = 107)
    (hb : 32 ≤ b.toNat ∧ b.toNat ≤ 126) :
    ∃ c', runOps [.switch 2, .insert b] c = .ok () c' ∧ c'.current = 2 ∧
      (c'.states 2).inputLength = 1 ∧ (c'.states 2).buffer 0 = b ∧ c'.vga.mem 0 = 107 := by
  obtain ⟨st, k, v, p⟩ := c
  obtain rfl : k = 0 := hcur
  have hst : st = Function.update st 2 ⟨buf, 5, 0, 0, 0, 5, 0, col⟩ := by
    rw [← h2]
    exact (Function.update_eq_self _ _).symm
  rw [hst]
  have hrun : ∃ c', (do
      switchScreen 2
      inputInsertCharAtCursor b : C Unit)
      ⟨Function.update st 2 ⟨buf, 5, 0, 0, 0, 5, 0, col⟩, 0, v, p⟩ = .ok () c' ∧ c'.current = 2 ∧
        (c'.states 2).inputLength = 1 ∧ (c'.states 2).buffer 0 = b ∧ c'.vga.mem 0 = buf 0 := by
    unfold inputInsertCharAtCursor
    rw [if_pos hb]
    exact ⟨_, rfl, rfl, rfl, rfl, rfl⟩
  obtain ⟨c', hr, hk, hl, hb, hv⟩ := hrun
  obtain ⟨_, d, h1, h2⟩ := bind_eq_ok.mp hr
  exact ⟨c', (bind_of_ok h1).trans ((bind_of_ok h2).trans rfl), hk, hl, hb, hv.trans h0⟩

/-! ## The result -/

/-- **When a switch keeps the typed line.** In every reachable state, for every other
screen and every work done away from the current screen `a`: coming back to `a`
finds the line that was left exactly when the first `input_length` bytes of text
memory, on leaving, were the line. -/
theorem switch_keeps_line {c : Console} (hc : Reach ConsoleStart ConsoleStep c) {n : Fin maxScreens}
    (hn : c.current ≠ n) {ops : List ConsoleOp} (hops : ∀ op ∈ ops, op ≠ .switch c.current) :
    ∃ c', runOps (.switch n :: ops ++ [.switch c.current]) c = .ok () c' ∧
      (SameLine (c.states c.current) (c'.states c.current) ↔
        ∀ i, i < (c.states c.current).inputLength →
          c.vga.mem i = (c.states c.current).buffer i) := by
  have hok := reach_linesOk hc
  obtain ⟨-, c', hr, -, hs, -⟩ := there_and_back hok hn ops hops
  refine ⟨c', hr, ?_⟩
  rw [hs]
  exact saved_sameLine (hok c.current)

/-- Typing `k`, which is what the image starts with, is kept. -/
theorem switch_keeps_line_k : ∃ c c', Reach ConsoleStart ConsoleStep c ∧ c.current = 2 ∧
    commandLine (c.states 2) = bytesOf "k" ∧
    runOps [.switch 0, .insert 120, .newline [], .switch 2] c = .ok () c' ∧
    SameLine (c.states 2) (c'.states 2) := by
  obtain ⟨c₀, buf, hr₀, hk₀, hs₀, hb₀⟩ := screenInit_two .blank
  obtain ⟨c, hr, hk, hl, hb, hv⟩ := typed_on_two hk₀ hs₀ hb₀ (b := 107) (by decide)
  have hreach := reach_runOps (.init ⟨_, hr₀⟩) hr
  have hops : ∀ op ∈ [ConsoleOp.insert 120, .newline []], op ≠ .switch c.current := by simp
  obtain ⟨c', hr', hsame⟩ := switch_keeps_line hreach (n := 0) (by rw [hk]; decide) hops
  rw [hk] at hr' hsame
  refine ⟨c, c', hreach, hk, ?_, hr', hsame.mpr fun i hi => ?_⟩
  · rw [commandLine_single hl (by rw [hb]; decide), hb]
    decide
  · obtain rfl : i = 0 := by omega
    rw [hv, hb]

/-- Typing `x` on screen 2, then F1 and F3: Enter would submit `k`. -/
theorem switch_loses_line : ∃ c c₁ c₂, ConsoleStart c ∧
    runOps [.switch 2, .insert 120] c = .ok () c₁ ∧ c₁.current = 2 ∧
    runOps [.switch 0, .switch 2] c₁ = .ok () c₂ ∧
    commandLine (c₁.states 2) = bytesOf "x" ∧ commandLine (c₂.states 2) = bytesOf "k" ∧
    ¬ SameLine (c₁.states 2) (c₂.states 2) := by
  obtain ⟨c, buf, hr₀, hk₀, hs₀, hb₀⟩ := screenInit_two .blank
  obtain ⟨c₁, hr₁, hk₁, hl₁, hb₁, hv₁⟩ := typed_on_two hk₀ hs₀ hb₀ (b := 120) (by decide)
  have hok := reach_linesOk (reach_runOps (.init ⟨_, hr₀⟩) hr₁)
  obtain ⟨-, c₂, hr₂, -, hs₂, -⟩ := there_and_back hok (n := 0) (by rw [hk₁]; decide) [] (by simp)
  rw [hk₁] at hr₂ hs₂
  have hb₂ : (c₂.states 2).buffer 0 = 107 := by
    rw [hs₂]
    exact hv₁
  have hl₂ : (c₂.states 2).inputLength = 1 := by
    rw [hs₂]
    show (c₁.states c₁.current).inputLength = 1
    rw [hk₁, hl₁]
  refine ⟨c, c₁, c₂, ⟨_, hr₀⟩, hr₁, hk₁, hr₂, ?_, ?_, fun h => ?_⟩
  · rw [commandLine_single hl₁ (by rw [hb₁]; decide), hb₁]
    decide
  · rw [commandLine_single hl₂ (by rw [hb₂]; decide), hb₂]
    decide
  · have hbyte := h.bytes 0 (by omega)
    rw [hb₁, hb₂] at hbyte
    exact absurd hbyte (by decide)

end Kfs
