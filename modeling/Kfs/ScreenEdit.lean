import Kfs.ScreenInv

/-!
# The input line is a text editor

`Editor` is a line of text with a cursor in it, edited as lists are. The code
keeps the text in `buffer`, shifts it in place and counts; `Represents` relates
the two, and every key keeps it. The drawing in between does not matter here:
it leaves the line alone (`SameText`).
-/

namespace Kfs

open Kfs.Lib

/-! ## The editor -/

/-- A key that edits the line. -/
inductive EditOp where
  | insert (b : BitVec 8)
  | delete
  | left
  | right

/-- A line of text and its cursor; `edited` once a key has changed the text. -/
structure Editor where
  text : List (BitVec 8)
  cursor : Nat
  edited : Bool

def Editor.empty : Editor := ⟨[], 0, false⟩

/-- What a key does to the text: insert a printable character at the cursor while
there is room for 3999, delete the one before it, or move inside the line. -/
def Editor.step (e : Editor) : EditOp → Editor
  | .insert b =>
    if 32 ≤ b.toNat ∧ b.toNat ≤ 126 ∧ e.text.length < 3999 then
      ⟨e.text.insertIdx e.cursor b, e.cursor + 1, true⟩
    else e
  | .delete => if 0 < e.cursor then ⟨e.text.eraseIdx (e.cursor - 1), e.cursor - 1, true⟩ else e
  | .left => if 0 < e.cursor then { e with cursor := e.cursor - 1 } else e
  | .right => if e.cursor < e.text.length then { e with cursor := e.cursor + 1 } else e

def Editor.steps (e : Editor) (ops : List EditOp) : Editor := ops.foldl Editor.step e

/-- The cursor is in the line, and the line in its bound. -/
structure Editor.Ok (e : Editor) : Prop where
  cursor : e.cursor ≤ e.text.length
  length : e.text.length ≤ 3999

theorem Editor.Ok.step {e : Editor} (h : e.Ok) (op : EditOp) : (e.step op).Ok := by
  obtain ⟨h1, h2⟩ := h
  cases op with
  | insert b =>
    have hlen := List.length_insertIdx_of_le_length h1 b
    show (if _ then _ else e : Editor).Ok
    split
    · refine ⟨show e.cursor + 1 ≤ _ from ?_, ?_⟩ <;> rw [hlen] <;> omega
    · exact ⟨h1, h2⟩
  | delete =>
    show (if _ then _ else e : Editor).Ok
    split
    · have hlen := List.length_eraseIdx_of_lt (show e.cursor - 1 < e.text.length by omega)
      refine ⟨show e.cursor - 1 ≤ _ from ?_, ?_⟩ <;> rw [hlen] <;> omega
    · exact ⟨h1, h2⟩
  | left =>
    show (if _ then _ else e : Editor).Ok
    split
    · exact ⟨show e.cursor - 1 ≤ e.text.length by omega, h2⟩
    · exact ⟨h1, h2⟩
  | right =>
    show (if _ then _ else e : Editor).Ok
    split
    · exact ⟨show e.cursor + 1 ≤ e.text.length by omega, h2⟩
    · exact ⟨h1, h2⟩

/-! ## The line in `buffer` -/

def EditOp.run : EditOp → C Unit
  | .insert b => inputInsertCharAtCursor b
  | .delete => inputDeleteCharAtCursor
  | .left => inputMoveCursorLeft
  | .right => inputMoveCursorRight

def runEdits : List EditOp → C Unit
  | [] => pure ()
  | op :: ops => do
    op.run
    runEdits ops

def lineText (s : ScreenState) : List (BitVec 8) := (List.range s.inputLength).map s.buffer

/-- The line on screen `s` is that of the editor `e`. -/
structure Represents (s : ScreenState) (e : Editor) : Prop where
  text : lineText s = e.text
  cursor : s.inputCursor = e.cursor
  nul : e.edited = true → s.buffer s.inputLength = 0

theorem Represents.length {s : ScreenState} {e : Editor} (h : Represents s e) :
    s.inputLength = e.text.length := by
  rw [← h.text]
  simp [lineText]

theorem lineText_eq {s : ScreenState} {text : List (BitVec 8)} (hl : s.inputLength = text.length)
    (hb : ∀ i, i < text.length → text[i]? = some (s.buffer i)) : lineText s = text := by
  apply List.ext_getElem?
  intro i
  unfold lineText
  by_cases hi : i < text.length
  · rw [hb i hi, List.getElem?_map, List.getElem?_range (by omega)]
    rfl
  · rw [List.getElem?_eq_none (by rw [List.length_map, List.length_range]; omega),
      List.getElem?_eq_none (by omega)]

theorem Represents.byte {s : ScreenState} {e : Editor} (h : Represents s e) {i : Nat}
    (hi : i < s.inputLength) : e.text[i]? = some (s.buffer i) := by
  rw [← h.text, lineText, List.getElem?_map, List.getElem?_range hi]
  rfl

theorem Represents.inserted {s s' : ScreenState} {e : Editor} (h : Represents s e) (hok : e.Ok)
    {b : BitVec 8} (hs : LineIs (s.inputLength + 1) (s.inputCursor + 1)
      (inserted s.buffer s.inputLength s.inputCursor b) s') :
    Represents s' ⟨e.text.insertIdx e.cursor b, e.cursor + 1, true⟩ := by
  obtain ⟨hl, hk, hbuf⟩ := hs
  have hlen := h.length
  have hcur := h.cursor
  have hle := hok.cursor
  have hins := List.length_insertIdx_of_le_length hle b
  refine ⟨lineText_eq ?_ fun i hi => ?_, ?_, fun _ => ?_⟩
  · rw [hl, hins, hlen]
  · rw [hins] at hi
    show (e.text.insertIdx e.cursor b)[i]? = _
    rw [List.getElem?_insertIdx, hbuf]
    unfold Kfs.inserted
    rw [storeByte_other (by omega)]
    by_cases hik : i = s.inputCursor
    · rw [hik, storeByte_same, hcur, if_neg (by omega), if_pos rfl, if_pos hle]
    rw [storeByte_other hik]
    unfold movedUp
    by_cases hlt : i < s.inputCursor
    · rw [if_pos (by omega), if_neg (by omega), h.byte (by omega)]
    · rw [if_neg (by omega), if_neg (by omega), if_pos (by omega), h.byte (by omega)]
  · show s'.inputCursor = e.cursor + 1
    rw [hk, hcur]
  · rw [hl, hbuf]
    exact storeByte_same _ _ _

theorem Represents.deleted {s s' : ScreenState} {e : Editor} (h : Represents s e) (hok : e.Ok)
    (hpos : 0 < e.cursor) (hs : LineIs (s.inputLength - 1) (s.inputCursor - 1)
      (deleted s.buffer s.inputLength s.inputCursor) s') :
    Represents s' ⟨e.text.eraseIdx (e.cursor - 1), e.cursor - 1, true⟩ := by
  obtain ⟨hl, hk, hbuf⟩ := hs
  have hlen := h.length
  have hcur := h.cursor
  have hle := hok.cursor
  have hdel := List.length_eraseIdx_of_lt (show e.cursor - 1 < e.text.length by omega)
  refine ⟨lineText_eq ?_ fun i hi => ?_, ?_, fun _ => ?_⟩
  · rw [hl, hdel, hlen]
  · rw [hdel] at hi
    show (e.text.eraseIdx (e.cursor - 1))[i]? = _
    rw [List.getElem?_eraseIdx, hbuf]
    unfold Kfs.deleted
    rw [storeByte_other (by omega)]
    unfold movedDown
    by_cases hlt : i < e.cursor - 1
    · rw [if_pos hlt, if_neg (by omega), h.byte (by omega)]
    · rw [if_neg hlt, if_pos (by omega), h.byte (by omega)]
  · show s'.inputCursor = e.cursor - 1
    rw [hk, hcur]
  · rw [hl, hbuf]
    exact storeByte_same _ _ _

theorem Represents.moved {s s' : ScreenState} {e : Editor} (h : Represents s e) {k : Nat}
    (hs : LineIs s.inputLength k s.buffer s') : Represents s' { e with cursor := k } := by
  obtain ⟨hl, hk, hbuf⟩ := hs
  refine ⟨?_, hk, fun he => ?_⟩
  · show lineText s' = e.text
    rw [← h.text, lineText, lineText, hl, hbuf]
  · rw [hl, hbuf]
    exact h.nul he

theorem move_apply {α : Type} {f : ScreenState → ScreenState} {x : C α} {c : Console} {k : Nat}
    (hf : f (c.states c.current) = { c.states c.current with inputCursor := k }) :
    (do setCur f; x) c = (do setCur fun s => { s with inputCursor := k }; x) c := by
  rw [bind_of_ok (setCur_apply _ _), bind_of_ok (setCur_apply _ _),
    Console.setCur_congr (g := fun s => { s with inputCursor := k }) hf]

/-- **What a key can do**: nothing, an insert, a delete or a move. -/
theorem EditOp.run_cases {c : Console} {e : Editor} (h : Represents (c.states c.current) e)
    (op : EditOp) :
    (op.run c = .ok () c ∧ e.step op = e) ∨
    (∃ b, op = .insert b ∧ (32 ≤ b.toNat ∧ b.toNat ≤ 126) ∧ e.text.length < 3999 ∧
      e.step op = ⟨e.text.insertIdx e.cursor b, e.cursor + 1, true⟩) ∨
    (op = .delete ∧ 0 < e.cursor ∧
      e.step op = ⟨e.text.eraseIdx (e.cursor - 1), e.cursor - 1, true⟩) ∨
    ∃ k, (e.cursor ≤ e.text.length → k ≤ e.text.length) ∧ e.step op = { e with cursor := k } ∧
      op.run c = (do
        setCur fun s => { s with inputCursor := k }
        placeCursor pure : C Unit) c := by
  have hlen := h.length
  have hcur := h.cursor
  cases op with
  | insert b =>
    by_cases hb : 32 ≤ b.toNat ∧ b.toNat ≤ 126
    swap
    · exact .inl ⟨insert_refused (.inl hb), if_neg fun hc => hb ⟨hc.1, hc.2.1⟩⟩
    by_cases hroom : e.text.length < 3999
    · exact .inr (.inl ⟨b, rfl, hb, hroom, if_pos ⟨hb.1, hb.2, hroom⟩⟩)
    · refine .inl ⟨insert_refused (.inr ?_), if_neg fun hc => hroom hc.2.2⟩
      simp only [screenSize, screenWidth, screenHeight]
      omega
  | delete =>
    by_cases hpos : 0 < e.cursor
    · exact .inr (.inr (.inl ⟨rfl, hpos, if_pos hpos⟩))
    · exact .inl ⟨delete_refused fun hc => hpos (by omega), if_neg hpos⟩
  | left =>
    by_cases hpos : 0 < e.cursor
    · exact .inr (.inr (.inr ⟨e.cursor - 1, by omega, if_pos hpos,
        (left_eq (by omega)).trans (move_apply (by rw [hcur]))⟩))
    · exact .inl ⟨left_refused (by omega), if_neg hpos⟩
  | right =>
    by_cases hpos : e.cursor < e.text.length
    · exact .inr (.inr (.inr ⟨e.cursor + 1, by omega, if_pos hpos,
        (right_eq (by omega)).trans (move_apply (by rw [hcur]))⟩))
    · exact .inl ⟨right_refused (by omega), if_neg hpos⟩

/-- **Every key** does to `buffer` what it does to the text. -/
theorem EditOp.run_edit {c : Console} {e : Editor} (h : Represents (c.states c.current) e)
    (hok : e.Ok) (op : EditOp) :
    ∃ c', op.run c = .ok () c' ∧ Touches (fun _ s => Represents s (e.step op)) c c' := by
  have hlen := h.length
  have hcur := h.cursor
  have hle := hok.cursor
  have hmax := hok.length
  obtain ⟨hr, hstep⟩ | ⟨b, rfl, hb, hroom, hstep⟩ | ⟨rfl, hpos, hstep⟩ | ⟨k, -, hstep, hrun⟩ :=
    op.run_cases h
  all_goals rw [hstep]
  · exact ⟨c, hr, rfl, fun _ _ => rfl, h⟩
  · obtain ⟨c', hr, ht⟩ := insert_ok (c := c) ⟨rfl, rfl, rfl⟩ (by omega)
      (by simp only [screenSize, screenWidth, screenHeight]; omega) hb
    exact ⟨c', hr, ht.current, ht.others, h.inserted hok ht.keep⟩
  · obtain ⟨c', hr, ht⟩ := delete_ok (c := c) ⟨rfl, rfl, rfl⟩ (by omega)
      (by simp only [screenSize, screenWidth, screenHeight]; omega) (by omega)
    exact ⟨c', hr, ht.current, ht.others, h.deleted hok hpos ht.keep⟩
  · obtain ⟨c', hr, ht⟩ := move_ok (c := c) ⟨rfl, rfl, rfl⟩
      (f := fun s => { s with inputCursor := k }) fun s hs => ⟨hs.1, rfl, hs.2.2⟩
    exact ⟨c', hrun.trans hr, ht.current, ht.others, h.moved ht.keep⟩

/-- **A sequence of keys** does too. -/
theorem runEdits_edit : ∀ (ops : List EditOp) {c : Console} {e : Editor},
    Represents (c.states c.current) e → e.Ok →
    ∃ c', runEdits ops c = .ok () c' ∧ (e.steps ops).Ok ∧
      Touches (fun _ s => Represents s (e.steps ops)) c c'
  | [], c, e, h, hok => ⟨c, rfl, hok, rfl, fun _ _ => rfl, h⟩
  | op :: ops, c, e, h, hok => by
    obtain ⟨c₁, hr₁, ht₁⟩ := op.run_edit h hok
    have h₁ : Represents (c₁.states c₁.current) (e.step op) := by
      rw [ht₁.current]
      exact ht₁.keep
    obtain ⟨c₂, hr₂, hok₂, ht₂⟩ := runEdits_edit ops h₁ (hok.step op)
    refine ⟨c₂, (bind_of_ok hr₁).trans hr₂, hok₂, ?_⟩
    exact Touches.followed (P := fun _ => True) (ht₁.mono fun _ _ _ => trivial) ht₂
      fun _ _ _ h => h

/-- **The input line is a correct text editor.** After `input_set_start_position`, any
sequence of keys runs without leaving `buffer`, and `buffer[0 .. input_length)`
and `input_cursor` are the text and the cursor of the editor. -/
theorem inputLine_edits (ops : List EditOp) (c : Console) :
    ∃ c', (do inputSetStartPosition; runEdits ops) c = .ok () c' ∧ c'.current = c.current ∧
      lineText (c'.states c.current) = (Editor.empty.steps ops).text ∧
      (c'.states c.current).inputCursor = (Editor.empty.steps ops).cursor ∧
      (c'.states c.current).inputCursor ≤ (c'.states c.current).inputLength ∧
      (c'.states c.current).inputLength ≤ 3999 ∧
      ((Editor.empty.steps ops).edited = true →
        (c'.states c.current).buffer (c'.states c.current).inputLength = 0) := by
  obtain ⟨c₁, hc₁⟩ : ∃ c₁, c₁ = c.setCur fun s => { s with
    inputStartX := s.cursorX
    inputStartY := s.cursorY
    inputLength := 0
    inputCursor := 0 } := ⟨_, rfl⟩
  have hr₁ : inputSetStartPosition c = .ok () c₁ := by
    rw [hc₁]
    rfl
  have hcur₁ : c₁.current = c.current := by rw [hc₁, Console.setCur_current]
  have h₁ : Represents (c₁.states c₁.current) Editor.empty := by
    rw [hcur₁, hc₁, Console.setCur_self]
    exact ⟨rfl, rfl, fun he => by cases he⟩
  obtain ⟨c', hr, hok, ht⟩ := runEdits_edit ops h₁ ⟨Nat.le_refl _, by decide⟩
  have hrep : Represents (c'.states c.current) (Editor.empty.steps ops) := hcur₁ ▸ ht.keep
  have hlen := hrep.length
  have hcursor := hrep.cursor
  have h2 := hok.cursor
  have h3 := hok.length
  exact ⟨c', (bind_of_ok hr₁).trans hr, ht.current.trans hcur₁, hrep.text, hcursor, by omega,
    by omega, hrep.nul⟩

/-- `ab`, left, `x`, delete, right: the text is `ab` again. -/
example : (Editor.empty.steps [.insert 97, .insert 98, .left, .insert 120, .delete, .right]).text =
    [97, 98] := by decide

end Kfs
