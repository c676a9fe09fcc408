import Kfs.Keyboard
import Kfs.Lib.Runs

/-!
# Modifier keys

Whether a key is down is read off the scancodes: of the key's own two codes, those
without prefix, the latest one is its press. `keyboard_handler` is total on every
code, and its two flags follow the keys as long as no release clears a flag that
another key still holds.
-/

namespace Kfs

open Kfs.Lib

/-! ## Which keys are down

Lists of codes have the latest code first. -/

/-- The next code belongs to another key. -/
def AfterPrefix (codes : List (BitVec 8)) : Prop := codes.head? = some extendedPrefix

instance (codes : List (BitVec 8)) : Decidable (AfterPrefix codes) :=
  inferInstanceAs (Decidable (_ = _))

/-- The codes without prefix. -/
def unprefixed : List (BitVec 8) → List (BitVec 8)
  | [] => []
  | c :: codes =>
    if c = extendedPrefix ∨ AfterPrefix codes then unprefixed codes else c :: unprefixed codes

def breakCode (key : BitVec 8) : BitVec 8 := key ||| 0x80

/-- Of the key's own codes without prefix, the latest is its press. -/
def KeyHeld (key : BitVec 8) (codes : List (BitVec 8)) : Prop :=
  (unprefixed codes).find? (fun c => c = key ∨ c = breakCode key) = some key

instance (key : BitVec 8) (codes : List (BitVec 8)) : Decidable (KeyHeld key codes) :=
  inferInstanceAs (Decidable (_ = _))

section Held

variable {key c : BitVec 8} {codes : List (BitVec 8)}

/-- A code with prefix, and the prefix itself, move no key. -/
theorem keyHeld_skip (h : c = extendedPrefix ∨ AfterPrefix codes) :
    KeyHeld key (c :: codes) ↔ KeyHeld key codes := by
  unfold KeyHeld
  rw [unprefixed, if_pos h]

theorem keyHeld_press (hc : key ≠ extendedPrefix) (hp : ¬ AfterPrefix codes) :
    KeyHeld key (key :: codes) := by
  unfold KeyHeld
  rw [unprefixed, if_neg (by simp [hc, hp]), List.find?_cons_of_pos (by simp)]

theorem keyHeld_release (hc : breakCode key ≠ extendedPrefix) (hne : breakCode key ≠ key)
    (hp : ¬ AfterPrefix codes) : ¬ KeyHeld key (breakCode key :: codes) := by
  unfold KeyHeld
  rw [unprefixed, if_neg (by simp [hc, hp]), List.find?_cons_of_pos (by simp)]
  simpa using hne

theorem keyHeld_other (hk : c ≠ key) (hb : c ≠ breakCode key) :
    KeyHeld key (c :: codes) ↔ KeyHeld key codes := by
  by_cases h : c = extendedPrefix ∨ AfterPrefix codes
  · exact keyHeld_skip h
  · unfold KeyHeld
    rw [unprefixed, if_neg h, List.find?_cons_of_neg (by simp [hk, hb])]

end Held

/-! ## The handler -/

/-- A call that returns and leaves every screen with a line that fits its buffer. -/
def ScreenSafe (x : C Unit) : Prop := ∀ c, LinesOk c → ∃ c', x c = .ok () c' ∧ LinesOk c'

theorem ConsoleOp.safe (op : ConsoleOp) : ScreenSafe op.run := by
  intro c h
  obtain ⟨c', hr, hok, -⟩ := op.run_ok h
  exact ⟨c', hr, hok⟩

theorem screenPutstring_safe (str : List (BitVec 8)) : ScreenSafe (screenPutstring str) := by
  intro c h
  obtain ⟨c', hr, ht⟩ := draws_lineOk (screenPutstring_draws str) h
  exact ⟨c', hr, ht.linesOk h⟩

/-- Only the screens have changed. -/
structure OnlyScreen (k k' : Keyboard) : Prop where
  keys : k'.keys = k.keys
  extended : k'.extended = k.extended
  ports : k'.ports = k.ports
  lines : LinesOk k'.console

section Handler

variable {k : Keyboard} (h : LinesOk k.console)
include h

omit h in
theorem ite_safe {p : Prop} [Decidable p] {x y : Kb Unit}
    (hx : p → ∃ k', x k = .ok () k' ∧ OnlyScreen k k')
    (hy : ¬ p → ∃ k', y k = .ok () k' ∧ OnlyScreen k k') :
    ∃ k', (if p then x else y) k = .ok () k' ∧ OnlyScreen k k' := by
  split
  · next hp => exact hx hp
  · next hp => exact hy hp

theorem onScreen_safe {x : C Unit} (hx : ScreenSafe x) :
    ∃ k', onScreen x k = .ok () k' ∧ OnlyScreen k k' := by
  obtain ⟨c', hr, hok⟩ := hx k.console h
  refine ⟨{ k with console := c' }, ?_, rfl, rfl, rfl, hok⟩
  unfold onScreen
  rw [hr]

theorem functionKey_safe {alone : C Unit} (withCtrl : String) (hx : ScreenSafe alone) :
    ∃ k', functionKey withCtrl alone k = .ok () k' ∧ OnlyScreen k k' := by
  unfold functionKey
  rw [get_bind_apply]
  exact ite_safe (fun _ => onScreen_safe h (screenPutstring_safe _)) fun _ => onScreen_safe h hx

omit h in
theorem scancodeToAscii_returns {scancode : BitVec 8} (hs : scancode.toNat < 128) :
    ∃ c, scancodeToAscii scancode k = .ok c k := by
  unfold scancodeToAscii
  rw [get_bind_apply, dif_pos hs]
  split_ifs <;> exact ⟨_, rfl⟩

theorem typeKey_safe {scancode : BitVec 8} (hs : scancode.toNat < 128) (out : List Out) :
    ∃ k', typeKey scancode out k = .ok () k' ∧ OnlyScreen k k' := by
  obtain ⟨c, hc⟩ := scancodeToAscii_returns (k := k) hs
  unfold typeKey
  rw [bind_of_ok hc]
  refine ite_safe (fun _ => onScreen_safe h ConsoleOp.delete.safe) fun _ => ?_
  exact ite_safe (fun _ => onScreen_safe h (ConsoleOp.newline out).safe) fun _ =>
    onScreen_safe h (ConsoleOp.insert c).safe

theorem extendedPress_safe (scancode : BitVec 8) :
    ∃ k', extendedPress scancode k = .ok () k' ∧ OnlyScreen k k' := by
  unfold extendedPress
  refine ite_safe (fun _ => onScreen_safe h ConsoleOp.left.safe) fun _ => ?_
  exact ite_safe (fun _ => onScreen_safe h ConsoleOp.right.safe) fun _ =>
    ⟨k, rfl, rfl, rfl, rfl, h⟩

theorem keyPress_safe {scancode : BitVec 8} (hs : scancode.toNat < 128) (out : List Out)
    (h1 : ¬ (scancode = keyLeftShift ∨ scancode = keyRightShift)) (h2 : scancode ≠ keyLeftCtrl)
    (h3 : scancode ≠ keyCapsLock) :
    ∃ k', keyPress scancode out k = .ok () k' ∧ OnlyScreen k k' := by
  unfold keyPress
  rw [if_neg h1, if_neg h2, if_neg h3]
  refine ite_safe (fun _ => functionKey_safe h _ (ConsoleOp.switch 0).safe) fun _ => ?_
  refine ite_safe (fun _ => functionKey_safe h _ (ConsoleOp.switch 1).safe) fun _ => ?_
  refine ite_safe (fun _ => functionKey_safe h _ (ConsoleOp.switch 2).safe) fun _ => ?_
  refine ite_safe (fun _ => functionKey_safe h _ (screenPutstring_safe _)) fun _ => ?_
  refine ite_safe (fun _ => functionKey_safe h _ (screenPutstring_safe _)) fun _ => ?_
  refine ite_safe (fun _ => functionKey_safe h _ (screenPutstring_safe _)) fun _ => ?_
  refine ite_safe (fun _ => functionKey_safe h _ (screenPutstring_safe _)) fun _ => ?_
  refine ite_safe (fun _ => functionKey_safe h _ (screenPutstring_safe _)) fun _ => ?_
  refine ite_safe (fun _ => functionKey_safe h _ (screenPutstring_safe _)) fun _ => ?_
  refine ite_safe (fun _ => functionKey_safe h _ (screenPutstring_safe _)) fun _ => ?_
  exact typeKey_safe h hs out

theorem keyPress_flags {scancode : BitVec 8} (hs : scancode.toNat < 128) (out : List Out) :
    ∃ k', keyPress scancode out k = .ok () k' ∧ LinesOk k'.console ∧
      k'.keys.shiftPressed = (if scancode = keyLeftShift ∨ scancode = keyRightShift then 1
        else k.keys.shiftPressed) ∧
      k'.keys.ctrlPressed = (if scancode = keyLeftCtrl then 1 else k.keys.ctrlPressed) := by
  by_cases h1 : scancode = keyLeftShift ∨ scancode = keyRightShift
  · have hr :
        keyPress scancode out k = .ok () { k with keys := { k.keys with shiftPressed := 1 } } := by
      unfold keyPress
      rw [if_pos h1]
      rfl
    have h2 : scancode ≠ keyLeftCtrl := by
      rcases h1 with rfl | rfl <;> decide
    exact ⟨_, hr, h, (if_pos h1).symm, (if_neg h2).symm⟩
  by_cases h2 : scancode = keyLeftCtrl
  · have hr :
        keyPress scancode out k = .ok () { k with keys := { k.keys with ctrlPressed := 1 } } := by
      unfold keyPress
      rw [if_neg h1, if_pos h2]
      rfl
    exact ⟨_, hr, h, (if_neg h1).symm, (if_pos h2).symm⟩
  rw [if_neg h1, if_neg h2]
  by_cases h3 : scancode = keyCapsLock
  · have hr : keyPress scancode out k = .ok ()
        { k with keys := { k.keys with capsLock := if k.keys.capsLock = 0 then 1 else 0 } } := by
      unfold keyPress
      rw [if_neg h1, if_neg h2, if_pos h3]
      rfl
    exact ⟨_, hr, h, rfl, rfl⟩
  · obtain ⟨k', hr, hk⟩ := keyPress_safe h hs out h1 h2 h3
    exact ⟨k', hr, hk.lines, by rw [hk.keys], by rw [hk.keys]⟩

end Handler

theorem breakCode_iff : ∀ scancode : BitVec 8, scancode &&& 0x80 ≠ 0 →
    (scancode &&& 0x7F = keyLeftShift ↔ scancode = breakCode keyLeftShift) ∧
    (scancode &&& 0x7F = keyRightShift ↔ scancode = breakCode keyRightShift) ∧
    (scancode &&& 0x7F = keyLeftCtrl ↔ scancode = breakCode keyLeftCtrl) := by
  decide +kernel

theorem breakCode_bit : ∀ key : BitVec 8, breakCode key &&& 0x80 ≠ 0 := by
  decide +kernel

theorem press_lt : ∀ scancode : BitVec 8, scancode &&& 0x80 = 0 → scancode.toNat < 128 := by
  decide +kernel

theorem keyRelease_flags {scancode : BitVec 8} (hs : scancode &&& 0x80 ≠ 0) (k : Keyboard) :
    ∃ k', keyRelease scancode k = .ok () k' ∧ k'.console = k.console ∧
      k'.keys.shiftPressed = (if scancode = breakCode keyLeftShift ∨
        scancode = breakCode keyRightShift
        then 0 else k.keys.shiftPressed) ∧
      k'.keys.ctrlPressed = (if scancode = breakCode keyLeftCtrl then 0
        else k.keys.ctrlPressed) := by
  obtain ⟨hl, hr, hc⟩ := breakCode_iff scancode hs
  unfold keyRelease
  simp only [hl, hr, hc]
  by_cases h1 : scancode = breakCode keyLeftShift ∨ scancode = breakCode keyRightShift
  · have h2 : scancode ≠ breakCode keyLeftCtrl := by
      rcases h1 with rfl | rfl <;> decide
    rw [if_pos h1, if_pos h1, if_neg h2]
    exact ⟨_, rfl, rfl, rfl, rfl⟩
  rw [if_neg h1, if_neg h1]
  by_cases h2 : scancode = breakCode keyLeftCtrl
  · rw [if_pos h2, if_pos h2]
    exact ⟨_, rfl, rfl, rfl, rfl⟩
  · rw [if_neg h2, if_neg h2]
    exact ⟨_, rfl, rfl, rfl, rfl⟩

/-- **What the handler does to the flags**, for every code. -/
theorem keyboardHandler_flags {k : Keyboard} (h : LinesOk k.console) (scancode : BitVec 8)
    (out : List Out) :
    ∃ k', keyboardHandler scancode out k = .ok () k' ∧ LinesOk k'.console ∧
      k'.extended = (if scancode = extendedPrefix then 1 else 0) ∧
      k'.keys.shiftPressed =
        (if k.extended = 0 ∧ (scancode = keyLeftShift ∨ scancode = keyRightShift) then 1
        else if scancode = breakCode keyLeftShift ∨ scancode = breakCode keyRightShift then 0
        else k.keys.shiftPressed) ∧
      k'.keys.ctrlPressed =
        (if k.extended = 0 ∧ scancode = keyLeftCtrl then 1
        else if scancode = breakCode keyLeftCtrl then 0 else k.keys.ctrlPressed) := by
  by_cases hpre : scancode = extendedPrefix
  · subst hpre
    have hr : keyboardHandler extendedPrefix out k = .ok ()
        { k with extended := 1, ports := (pic1Command, 0x20) :: (pic2Command, 0x20) :: k.ports } :=
          rfl
    refine ⟨_, hr, h, (if_pos rfl).symm, ?_, ?_⟩
    · rw [if_neg (fun h => absurd h.2 (by decide)), if_neg (by decide)]
    · rw [if_neg (fun h => absurd h.2 (by decide)), if_neg (by decide)]
  rw [if_neg hpre]
  unfold keyboardHandler
  rw [if_neg hpre]
  by_cases hs : scancode &&& 0x80 = 0
  · -- a press is nobody's release
    have hbreak : ∀ key, scancode ≠ breakCode key := by
      rintro key rfl
      exact breakCode_bit key hs
    rw [if_pos hs, get_bind_apply]
    by_cases hext : k.extended = 0
    · obtain ⟨k', hr, hok, hshift, hctrl⟩ := keyPress_flags h (press_lt scancode hs) out
      rw [if_neg (by simpa using hext), bind_of_ok hr]
      refine ⟨_, rfl, hok, rfl, ?_, ?_⟩
      · simpa [hext, hbreak] using hshift
      · simpa [hext, hbreak] using hctrl
    · obtain ⟨k', hr, hk⟩ := extendedPress_safe h scancode
      rw [if_pos hext, bind_of_ok hr]
      refine ⟨_, rfl, hk.lines, rfl, ?_, ?_⟩
      · rw [if_neg fun h => hext h.1, if_neg (by simp [hbreak])]
        exact congrArg KeyboardState.shiftPressed hk.keys
      · rw [if_neg fun h => hext h.1, if_neg (hbreak _)]
        exact congrArg KeyboardState.ctrlPressed hk.keys
  · obtain ⟨k', hr, hcon, hshift, hctrl⟩ := keyRelease_flags hs k
    rw [if_neg hs, bind_of_ok hr]
    refine ⟨_, rfl, hcon ▸ h, rfl, ?_, ?_⟩
    · rw [if_neg]
      · exact hshift
      · rintro ⟨-, rfl | rfl⟩ <;> exact hs (by decide)
    · rw [if_neg]
      · exact hctrl
      · rintro ⟨-, rfl⟩
        exact hs (by decide)

/-! ## Flags and keys -/

/-- The flag `v` says whether one of `keys` is down. -/
def FlagTracks (v : BitVec 8) (keys codes : List (BitVec 8)) : Prop :=
  v = 1 ↔ ∃ key ∈ keys, KeyHeld key codes

/-- If `c` is the release of one of `keys`, it has no prefix and no other of them is down. -/
def ReleasesLast (keys : List (BitVec 8)) (c : BitVec 8) (codes : List (BitVec 8)) : Prop :=
  ∀ key ∈ keys, c = breakCode key → ∀ key' ∈ keys, KeyHeld key' codes →
    ¬ AfterPrefix codes ∧ key' = key

instance (keys : List (BitVec 8)) (c : BitVec 8) (codes : List (BitVec 8)) :
    Decidable (ReleasesLast keys c codes) :=
  inferInstanceAs (Decidable (∀ key ∈ keys, c = breakCode key → ∀ key' ∈ keys, KeyHeld key' codes →
    ¬ AfterPrefix codes ∧ key' = key))

/-- Keys whose codes are told apart. -/
structure Distinct (keys : List (BitVec 8)) : Prop where
  press : ∀ key ∈ keys, key ≠ extendedPrefix
  release : ∀ key ∈ keys, breakCode key ≠ extendedPrefix
  apart : ∀ key ∈ keys, ∀ key' ∈ keys, breakCode key ≠ key'
  inj : ∀ key ∈ keys, ∀ key' ∈ keys, breakCode key = breakCode key' → key = key'

/-- **One code.** A flag that is set at a press without prefix and cleared at every release
tracks its keys after the code if and only if a release was that of the last one down. -/
theorem flag_step {keys codes : List (BitVec 8)} {v v' c : BitVec 8} (hk : Distinct keys)
    (hv : FlagTracks v keys codes)
    (hv' : v' = if ¬ AfterPrefix codes ∧ c ∈ keys then 1
      else if ∃ key ∈ keys, c = breakCode key then 0 else v) :
    FlagTracks v' keys (c :: codes) ↔ ReleasesLast keys c codes := by
  by_cases hpress : ¬ AfterPrefix codes ∧ c ∈ keys
  · rw [if_pos hpress] at hv'
    subst hv'
    refine iff_of_true (iff_of_true rfl ?_) fun key hkey hc => ?_
    · exact ⟨c, hpress.2, keyHeld_press (hk.press c hpress.2) hpress.1⟩
    · exact absurd hc.symm (hk.apart key hkey c hpress.2)
  rw [if_neg hpress] at hv'
  by_cases hrel : ∃ key ∈ keys, c = breakCode key
  · rw [if_pos hrel] at hv'
    obtain ⟨key, hkey, rfl⟩ := hrel
    subst hv'
    have hflag : FlagTracks 0 keys (breakCode key :: codes) ↔
        ∀ key' ∈ keys, ¬ KeyHeld key' (breakCode key :: codes) := by
      unfold FlagTracks
      simp
    rw [hflag]
    by_cases hp : AfterPrefix codes
    · constructor
      · intro hno _ _ _ key' hkey' hheld
        exact absurd ((keyHeld_skip (.inr hp)).mpr hheld) (hno key' hkey')
      · intro hlast key' hkey' hheld
        exact (hlast key hkey rfl key' hkey' ((keyHeld_skip (.inr hp)).mp hheld)).1 hp
    · constructor
      · intro hno key₁ hkey₁ hc key' hkey' hheld
        obtain rfl := hk.inj key hkey key₁ hkey₁ hc
        refine ⟨hp, ?_⟩
        by_contra hne
        refine hno key' hkey'
          ((keyHeld_other (hk.apart key hkey key' hkey') fun heq => ?_).mpr hheld)
        exact hne (hk.inj key hkey key' hkey' heq).symm
      · intro hlast key' hkey' hheld
        by_cases heq : key' = key
        · subst heq
          exact keyHeld_release (hk.release key' hkey) (hk.apart key' hkey key' hkey) hp hheld
        · have hold := (keyHeld_other (hk.apart key hkey key' hkey') fun hb =>
            heq (hk.inj key hkey key' hkey' hb).symm).mp hheld
          exact heq (hlast key hkey rfl key' hkey' hold).2
  · rw [if_neg hrel] at hv'
    subst hv'
    have hsame : ∀ key ∈ keys, KeyHeld key (c :: codes) ↔ KeyHeld key codes := by
      intro key hkey
      by_cases hc : c = key
      · refine keyHeld_skip (.inr ?_)
        by_contra hp
        exact hpress ⟨hp, hc ▸ hkey⟩
      · exact keyHeld_other hc fun hb => hrel ⟨key, hkey, hb⟩
    refine iff_of_true ?_ fun key hkey hc => absurd ⟨key, hkey, hc⟩ hrel
    refine hv.trans ⟨?_, ?_⟩
    · rintro ⟨key, hkey, hheld⟩
      exact ⟨key, hkey, (hsame key hkey).mpr hheld⟩
    · rintro ⟨key, hkey, hheld⟩
      exact ⟨key, hkey, (hsame key hkey).mp hheld⟩

/-! ## Runs -/

def shiftKeys : List (BitVec 8) := [keyLeftShift, keyRightShift]
def ctrlKeys : List (BitVec 8) := [keyLeftCtrl]

theorem shiftKeys_distinct : Distinct shiftKeys := by
  constructor <;> decide

theorem ctrlKeys_distinct : Distinct ctrlKeys := by
  constructor <;> decide

/-- The keyboard, and the codes it has sent. -/
structure KeySys where
  kb : Keyboard
  codes : List (BitVec 8)

/-- The state in which interrupts are enabled, on screens in use. -/
structure KeyStart (x : KeySys) : Prop where
  keys : x.kb.keys = ⟨0, 0, 0⟩
  extended : x.kb.extended = 0
  console : Reach ConsoleStart ConsoleStep x.kb.console
  codes : x.codes = []

/-- One interrupt: the code, and the output of the command it runs if it is Enter. All that a
command does here is to print. -/
abbrev KeyEvent := BitVec 8 × List Out

def KeyStep (x : KeySys) (e : KeyEvent) (y : KeySys) : Prop :=
  keyboardHandler e.1 e.2 x.kb = .ok () y.kb ∧ y.codes = e.1 :: x.codes

/-- `shift_pressed` says whether a shift key is down, `ctrl_pressed` whether the left
control key is. -/
def Tracks (x : KeySys) : Prop :=
  FlagTracks x.kb.keys.shiftPressed shiftKeys x.codes ∧
    FlagTracks x.kb.keys.ctrlPressed ctrlKeys x.codes

/-- The code releases no modifier while another key holds its flag. -/
def ClearsLast (x : KeySys) (e : KeyEvent) : Prop :=
  ReleasesLast shiftKeys e.1 x.codes ∧ ReleasesLast ctrlKeys e.1 x.codes

/-- What holds whatever the codes are. -/
structure KeyOk (x : KeySys) : Prop where
  lines : LinesOk x.kb.console
  prefixed : x.kb.extended = 0 ↔ ¬ AfterPrefix x.codes

theorem KeyStart.ok {x : KeySys} (h : KeyStart x) : KeyOk x ∧ Tracks x := by
  refine ⟨⟨reach_linesOk h.console, iff_of_true h.extended ?_⟩, ?_⟩
  · rw [h.codes]
    decide
  · unfold Tracks
    rw [h.codes, h.keys]
    constructor <;> unfold FlagTracks <;> decide

/-- **Every code is handled.** -/
theorem KeyOk.step {x : KeySys} (h : KeyOk x) (e : KeyEvent) :
    ∃ y, KeyStep x e y ∧ KeyOk y ∧ (Tracks x → (Tracks y ↔ ClearsLast x e)) := by
  obtain ⟨c, out⟩ := e
  obtain ⟨k', hr, hlines, hext, hshift, hctrl⟩ := keyboardHandler_flags h.lines c out
  have hpre := h.prefixed
  refine ⟨⟨k', c :: x.codes⟩, ⟨hr, rfl⟩, ⟨hlines, ?_⟩, fun hx => and_congr ?_ ?_⟩
  · show k'.extended = 0 ↔ _
    rw [hext]
    by_cases hc : c = extendedPrefix
    · simp [AfterPrefix, hc]
    · simp [AfterPrefix, hc]
  · refine flag_step shiftKeys_distinct hx.1 (hshift.trans ?_)
    simp only [hpre]
    simp [shiftKeys]
  · refine flag_step ctrlKeys_distinct hx.2 (hctrl.trans ?_)
    simp only [hpre]
    simp [ctrlKeys]

theorem KeyOk.run {x : KeySys} (h : KeyOk x) :
    ∀ es : List KeyEvent, ∃ tr, tr.map Prod.fst = es ∧ Trace KeyStep x tr
  | [] => ⟨[], rfl, trivial⟩
  | e :: es => by
    obtain ⟨y, hs, hy, -⟩ := h.step e
    obtain ⟨tr, htr, ht⟩ := hy.run es
    exact ⟨(e, y) :: tr, by simp [htr], hs, ht⟩

theorem KeyStep.eq {x y z : KeySys} {e : KeyEvent} (hy : KeyStep x e y) (hz : KeyStep x e z) :
    y = z := by
  obtain ⟨hy, hcy⟩ := hy
  obtain ⟨hz, hcz⟩ := hz
  rw [hy] at hz
  injection hz with _ hkb
  cases y
  cases z
  simp_all

/-- **When the flags track the keys.** Every sequence of codes from the start is handled,
and after each of them both flags say which modifiers are down if and only if no code
of it releases a modifier while another key holds its flag. -/
theorem modifiers_tracked {x : KeySys} (hx : KeyStart x) (es : List KeyEvent) :
    ∃ tr, tr.map Prod.fst = es ∧ Trace KeyStep x tr ∧
      (Trace (fun _ _ y => Tracks y) x tr ↔ Meets ClearsLast x tr) := by
  obtain ⟨hok, htracks⟩ := hx.ok
  obtain ⟨tr, htr, ht⟩ := hok.run es
  refine ⟨tr, htr, ht, ?_⟩
  refine Trace.iff_meets (I := fun x => KeyOk x ∧ Tracks x) (G := fun _ _ y => Tracks y)
    (fun x e y hI hs => ?_) (fun x e y hI hs hc => ?_) ⟨hok, htracks⟩ ht
  · obtain ⟨z, hz, -, hiff⟩ := hI.1.step e
    obtain rfl := hs.eq hz
    exact hiff hI.2
  · obtain ⟨z, hz, hzok, hiff⟩ := hI.1.step e
    obtain rfl := hs.eq hz
    exact ⟨hzok, (hiff hI.2).mpr hc⟩

theorem keyStart_exists : ∃ x, KeyStart x := by
  obtain ⟨c, hr, -⟩ := screenInit_ok .blank
  exact ⟨⟨⟨⟨0, 0, 0⟩, 0, c, []⟩, []⟩, rfl, rfl, .init ⟨_, hr⟩, rfl⟩

/-- One shift key, pressed and released. -/
theorem modifiers_tracked_one : ∃ x tr, KeyStart x ∧
    tr.map Prod.fst = [((0x2A, []) : KeyEvent), (0xAA, [])] ∧ Trace KeyStep x tr ∧
    Trace (fun _ _ y => Tracks y) x tr := by
  obtain ⟨x, hx⟩ := keyStart_exists
  obtain ⟨tr, htr, ht, hiff⟩ := modifiers_tracked hx [(0x2A, []), (0xAA, [])]
  refine ⟨x, tr, hx, htr, ht, hiff.mpr ?_⟩
  obtain ⟨e, tr, rfl, he, htr⟩ := List.map_eq_cons_iff.mp htr
  obtain ⟨e', tr, rfl, he', htr⟩ := List.map_eq_cons_iff.mp htr
  obtain rfl := List.map_eq_nil_iff.mp htr
  have hcodes : e.2.codes = [0x2A] := by
    rw [ht.1.2, hx.codes, he]
  refine ⟨?_, ?_, trivial⟩
  · unfold ClearsLast
    rw [hx.codes, he]
    decide
  · unfold ClearsLast
    rw [hcodes, he']
    decide

/-- Both shift keys are pressed and the left one is released: the flag is cleared while
the right one is down. -/
theorem shift_lost : ∃ x tr, KeyStart x ∧
    tr.map Prod.fst = [((0x2A, []) : KeyEvent), (0x36, []), (0xAA, [])] ∧ Trace KeyStep x tr ∧
    KeyHeld keyRightShift (lastOf x tr).codes ∧ (lastOf x tr).kb.keys.shiftPressed = 0 ∧
    ¬ Trace (fun _ _ y => Tracks y) x tr := by
  obtain ⟨⟨⟨keys, ext, c, ports⟩, codes⟩, hx⟩ := keyStart_exists
  obtain rfl : keys = ⟨0, 0, 0⟩ := hx.keys
  obtain rfl : ext = 0 := hx.extended
  obtain rfl : codes = [] := hx.codes
  refine ⟨_, [((0x2A, []), ⟨⟨⟨1, 0, 0⟩, 0, c, _⟩, [0x2A]⟩),
    ((0x36, []), ⟨⟨⟨1, 0, 0⟩, 0, c, _⟩, [0x36, 0x2A]⟩),
    ((0xAA, []), ⟨⟨⟨0, 0, 0⟩, 0, c, _⟩, [0xAA, 0x36, 0x2A]⟩)], hx, rfl,
    ⟨⟨rfl, rfl⟩, ⟨rfl, rfl⟩, ⟨rfl, rfl⟩, trivial⟩, ?_, rfl, ?_⟩
  · show KeyHeld keyRightShift [0xAA, 0x36, 0x2A]
    decide
  · rintro ⟨-, -, h, -⟩
    have hflag : FlagTracks 0 shiftKeys [0xAA, 0x36, 0x2A] := h.1
    revert hflag
    unfold FlagTracks
    decide

end Kfs
