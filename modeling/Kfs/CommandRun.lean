import Kfs.CommandLine
import Kfs.Format

/-!
# Which command a line runs

The words of a line are its maximal runs of characters other than space and tab.
`shell_parse_args` finds the first fifteen of them in its copy of the line, one a
round; `Parsing` says what holds between rounds: what is still to be read is
untouched, and the words found so far end before it.
-/

namespace Kfs

open Kfs.Lib

/-! ## Arrays -/

section Arrays

variable {s : ShellState} {i : Nat}

theorem loadArgs_apply (h : i < shellBufferSize) : loadArgs i s = .ok (s.args.buffer i) s := by
  unfold loadArgs
  rw [if_pos h]
  rfl

theorem storeArgs_apply (h : i < shellBufferSize) (b : BitVec 8) :
    storeArgs i b s =
      .ok () { s with args := { s.args with buffer := storeByte s.args.buffer i b } } := by
  unfold storeArgs
  rw [if_pos h]
  rfl

theorem loadShell_apply (h : i < shellBufferSize) : loadShell i s = .ok (s.shellBuffer i) s := by
  unfold loadShell
  rw [if_pos h]
  rfl

theorem storeShell_apply (h : i < shellBufferSize) (b : BitVec 8) :
    storeShell i b s = .ok () { s with shellBuffer := storeByte s.shellBuffer i b } := by
  unfold storeShell
  rw [if_pos h]
  rfl

theorem storeArgv_apply (h : i < shellMaxArgs) (p : Option Nat) :
    storeArgv i p s =
      .ok () { s with args := { s.args with argv := Function.update s.args.argv i p } } := by
  unfold storeArgv
  rw [if_pos h]
  rfl

theorem loadChar_reads (str : CStr) (s : ShellState) : Reads (loadChar str) str s := by
  intro i hi
  unfold loadChar
  rw [if_pos hi]
  rfl

end Arrays

/-- `kprintf` of a format that ends in `%s` and a line feed. -/
theorem kprintfv_line {m : Mem} {before : String} {n fmt : Nat} {args : VaList} (c : Console)
    (hm : StringAt m fmt (bytesOf before ++ [percent, 115, newline]))
    (h0 : (0 : BitVec 8) ∉ bytesOf before) (hp : percent ∉ bytesOf before) :
    kprintfv m (n + 3 + (bytesOf before).length) fmt args c =
      kprintfLine before (cString m (args 0).toNat addressSpace) c := by
  have hpieces : pieces percent (bytesOf before ++ [percent, 115, newline]) =
      (bytesOf before).map .lit ++ [.esc 115, .lit newline] := pieces_append _ hp
  have hcount : argCount (bytesOf before ++ [percent, 115, newline]) = 1 := argCount_append hp _
  have hnul : (0 : BitVec 8) ∉ bytesOf before ++ [percent, 115, newline] := by
    rw [List.mem_append, not_or]
    exact ⟨h0, by decide⟩
  have hva : args.Holds [args 0] := fun i hi => by
    obtain rfl := Nat.lt_one_iff.mp hi
    rfl
  have hlen : (pieces percent (bytesOf before ++ [percent, 115, newline])).length <
      n + 3 + (bytesOf before).length := by
    rw [hpieces, List.length_append, List.length_map]
    simp only [List.length_cons, List.length_nil]
    omega
  rw [kprintfv_text hm hnul (dangling_append _ hp) hva hcount.symm hlen, hpieces, piecesText_lits]
  unfold kprintfLine
  rw [List.append_assoc]
  rfl

/-! ## The arguments -/

/-- `argv` points at the words, each of them NUL-terminated in the buffer, and ends with
`NULL`. -/
structure Args.Are (args : Args) (ws : List (List (BitVec 8))) : Prop where
  argc : args.argc = ws.length
  argv : ∀ k w, ws[k]? = some w → ∃ a, args.argv k = some a ∧ a + w.length < shellBufferSize ∧
    StringAt args.buffer a w
  last : args.argv ws.length = none

/-- Between two rounds of `shell_parse_args`. -/
structure Parsing (str : CStr) (token : Nat) (ws : List (List (BitVec 8))) (args : Args) :
    Prop where
  token_le : token ≤ str.length
  argc : args.argc = ws.length
  few : ws.length ≤ shellMaxArgs - 1
  /-- What is still to be read is the line. -/
  unread : ∀ i, token ≤ i → i ≤ str.length → args.buffer i = str.byte i
  words : splitWords isBlank str.bytes = ws ++ splitWords isBlank (str.bytes.drop token)
  noNul : ∀ w ∈ ws, (0 : BitVec 8) ∉ w
  /-- A word ends before `token`, or with the line. -/
  argv : ∀ k w, ws[k]? = some w → ∃ a, args.argv k = some a ∧ a + w.length ≤ str.length ∧
    (a + w.length < token ∨ token = str.length) ∧ StringAt args.buffer a w

section Round

variable {str : CStr} {token : Nat} {ws : List (List (BitVec 8))} {s : ShellState}

/-- The word at `a` is the next argument, and `t` is where the next round starts. -/
theorem Parsing.next (h : Parsing str token ws s.args) {b w r : List (BitVec 8)} {t : Nat} {m : Mem}
    (hdrop : str.bytes.drop token = b ++ (w ++ r)) (hlt : token < str.length)
    (hfew : ws.length < shellMaxArgs - 1)
    (hsplit : splitWords isBlank (b ++ (w ++ r)) = w :: splitWords isBlank (str.bytes.drop t))
    (ht : t = token + b.length + w.length + 1 ∧ t ≤ str.length ∨
      t = token + b.length + w.length ∧ t = str.length)
    (hm : ∀ i, i ≠ token + b.length + w.length → m i = s.args.buffer i)
    (hnul : m (token + b.length + w.length) = 0) :
    Parsing str t (ws ++ [w])
      ⟨ws.length + 1, Function.update s.args.argv ws.length (some (token + b.length)), m⟩ := by
  have hword : ∀ i (hi : i < w.length), str.byte (token + b.length + i) = w[i] := by
    intro i hi
    have hpos := CStr.byte_drop (t := token) (i := b.length + i) (u := b ++ w) (v := r)
      (by rw [hdrop, List.append_assoc]) (by rw [List.length_append]; omega)
    rw [Nat.add_assoc, hpos, List.getElem_append_right (by omega)]
    congr 1
    omega
  refine ⟨by omega, by rw [List.length_append]; rfl, ?_, fun i h1 h2 => ?_,
    ?_, fun v hv => ?_, fun k v hv => ?_⟩
  · rw [List.length_append]
    exact hfew
  · show m i = str.byte i
    by_cases hi : i = token + b.length + w.length
    · -- only the end of the line is read again
      have hlast : i = str.length := by omega
      rw [hi, hnul, ← hi, hlast, str.byte_length]
    · rw [hm i hi]
      exact h.unread i (by omega) h2
  · rw [h.words, hdrop, hsplit]
    simp
  · rcases List.mem_append.mp hv with hv | hv
    · exact h.noNul v hv
    · obtain rfl := List.mem_singleton.mp hv
      intro h0
      apply str.noNul
      have hmem : (0 : BitVec 8) ∈ str.bytes.drop token := by
        rw [hdrop]
        exact List.mem_append_right b (List.mem_append_left r h0)
      exact List.mem_of_mem_drop hmem
  · by_cases hk : k < ws.length
    · rw [List.getElem?_append_left hk] at hv
      obtain ⟨a, ha, hle, hbefore, hat⟩ := h.argv k v hv
      have hpast : a + v.length < token := by omega
      refine ⟨a, ?_, hle, .inl (by omega), ?_⟩
      · exact (Function.update_of_ne (Nat.ne_of_lt hk) _ _).trans ha
      · refine ⟨fun i hi => ?_, ?_⟩
        · exact (hm _ (by omega)).trans (hat.bytes i hi)
        · exact (hm _ (by omega)).trans hat.nul
    · rw [List.getElem?_append_right (by omega)] at hv
      have hk0 : k - ws.length = 0 := by
        by_contra hne
        rw [List.getElem?_eq_none (by simp only [List.length_singleton]; omega)] at hv
        cases hv
      obtain rfl : k = ws.length := by omega
      rw [hk0] at hv
      obtain rfl : w = v := by simpa using hv
      refine ⟨token + b.length, Function.update_self _ _ _, by omega,
        by omega, fun i hi => ?_, hnul⟩
      exact (hm _ (by omega)).trans ((h.unread _ (by omega) (by omega)).trans (hword i hi))

theorem split_rest {b w r : List (BitVec 8)} (hb : ∀ x ∈ b, isBlank x = true) (hne : w ≠ [])
    (hw : ∀ x ∈ w, isBlank x = false) (hr : r = [] ∨ ∃ x r', r = x :: r' ∧ isBlank x = true) :
    splitWords isBlank (b ++ (w ++ r)) = w :: splitWords isBlank r.tail := by
  rw [splitWords_separators hb]
  rcases hr with rfl | ⟨x, r', rfl, hx⟩
  · rw [List.append_nil, splitWords_last hne hw, List.tail_nil, splitWords_nil]
  · exact splitWords_word hne hw hx

theorem scan_line (hun : ∀ i, token ≤ i → i ≤ str.length → s.args.buffer i = str.byte i)
    (hL : str.length < shellBufferSize) {e : Nat} {p : BitVec 8 → Bool} {t : Nat} (ht : token ≤ t)
    (hte : t ≤ e) (he : e ≤ str.length) (hp : ∀ i, t ≤ i → i < e → p (str.byte i) = true)
    (hend : p (str.byte e) = false) : scan .outOfFuel loadArgs p scanLimit t s = .ok e s := by
  refine scan_apply hend hte ?_ (fun i h1 h2 => ?_) hp
  · unfold scanLimit
    omega
  · rw [loadArgs_apply (by omega), hun i (by omega) (by omega)]

theorem parseRound_end {last e : Nat} (hgo : token < last ∧ s.args.argc < shellMaxArgs - 1)
    (hscan : scan .outOfFuel loadArgs isBlank scanLimit token s = .ok e s)
    (he : e < shellBufferSize)
    (h0 : s.args.buffer e = 0) : parseRound last token s = .ok (.inr ()) s := by
  unfold parseRound
  rw [get_bind_apply, if_pos hgo, bind_of_ok hscan, bind_of_ok (loadArgs_apply he), if_pos h0]
  rfl

/-- The state after the word at `a` is entered into `argv`. -/
def entered (s : ShellState) (a : Nat) : ShellState :=
  { s with
    args := ⟨s.args.argc + 1, Function.update s.args.argv s.args.argc (some a), s.args.buffer⟩ }

/-- The state after a word's end is overwritten. -/
def ended (s : ShellState) (e : Nat) : ShellState :=
  { s with args := { s.args with buffer := storeByte s.args.buffer e 0 } }

theorem parseRound_word {last a e : Nat} (hgo : token < last ∧ s.args.argc < shellMaxArgs - 1)
    (hscan : scan .outOfFuel loadArgs isBlank scanLimit token s = .ok a s)
    (ha : a < shellBufferSize) (h0 : s.args.buffer a ≠ 0)
    (hscan' : scan .outOfFuel loadArgs isWordChar scanLimit a (entered s a) = .ok e (entered s a))
    (he : e < shellBufferSize) :
    parseRound last token s =
      if s.args.buffer e ≠ 0 then .ok (.inl (e + 1)) (ended (entered s a) e)
      else .ok (.inl e) (entered s a) := by
  have hargv := storeArgv_apply (s := s) (i := s.args.argc) (by have := hgo.2; omega) (some a)
  have hload := loadArgs_apply (s := entered s a) he
  unfold parseRound
  rw [get_bind_apply, if_pos hgo, bind_of_ok hscan, bind_of_ok (loadArgs_apply ha), if_neg h0,
    bind_of_ok hargv]
  refine (bind_of_ok (t := entered s a) rfl).trans
    ((bind_of_ok hscan').trans ((bind_of_ok hload).trans ?_))
  by_cases hz : (entered s a).args.buffer e ≠ 0
  · rw [if_pos hz, if_pos (show s.args.buffer e ≠ 0 from hz), bind_of_ok (storeArgs_apply he 0)]
    rfl
  · rw [if_neg hz, if_neg (show ¬ s.args.buffer e ≠ 0 from hz)]
    rfl

theorem wordChar_iff {c : BitVec 8} : isWordChar c = true ↔ isBlank c = false ∧ c ≠ 0 := by
  unfold isWordChar isBlank
  simp only [decide_eq_true_eq, decide_eq_false_iff_not, not_or, ne_eq]
  tauto

theorem wordChar_stop {e : Nat} {r : List (BitVec 8)} (hafter : str.bytes.drop e = r)
    (hlen : str.length = e + r.length) (hr : r = [] ∨ ∃ x r', r = x :: r' ∧ isBlank x = true) :
    isWordChar (str.byte e) = false := by
  rw [Bool.eq_false_iff, ne_eq, wordChar_iff]
  rintro ⟨h1, h2⟩
  rcases hr with rfl | ⟨x, r', rfl, hx⟩
  · have he : e = str.length := by simpa using hlen.symm
    exact h2 (he ▸ str.byte_length)
  · have hex := CStr.byte_drop (u := [x]) (v := r') (i := 0) hafter (Nat.succ_pos 0)
    rw [Nat.add_zero] at hex
    rw [hex] at h1
    exact absurd (hx.symm.trans h1) (by decide)

theorem Parsing.round_blank (h : Parsing str token ws s.args) (hL : str.length < shellBufferSize)
    (hgo : token < str.length ∧ s.args.argc < shellMaxArgs - 1)
    (hblank : ∀ x ∈ str.bytes.drop token, isBlank x = true) :
    parseRound str.length token s = .ok (.inr ()) s ∧ splitWords isBlank str.bytes = ws := by
  have hlen : (str.bytes.drop token).length = str.length - token := List.length_drop
  have hscan := scan_line h.unread hL (Nat.le_refl token) (Nat.le_of_lt hgo.1) (Nat.le_refl _)
    (p := isBlank) (fun i h1 h2 => CStr.byte_of_drop (List.append_nil _).symm hblank h1 (by omega))
    (by rw [str.byte_length]; decide)
  have hnul := (h.unread _ (Nat.le_of_lt hgo.1) (Nat.le_refl _)).trans str.byte_length
  refine ⟨parseRound_end hgo hscan hL hnul, ?_⟩
  have hnone := splitWords_separators (p := isBlank) (l := []) hblank
  rw [List.append_nil, splitWords_nil] at hnone
  rw [h.words, hnone, List.append_nil]

theorem Parsing.round_word (h : Parsing str token ws s.args) (hL : str.length < shellBufferSize)
    (hlt : token < str.length) (hfew : ws.length < shellMaxArgs - 1) {b w r : List (BitVec 8)}
    (hdrop : str.bytes.drop token = b ++ (w ++ r)) (hb : ∀ x ∈ b, isBlank x = true) (hne : w ≠ [])
    (hw : ∀ x ∈ w, isBlank x = false) (hr : r = [] ∨ ∃ x r', r = x :: r' ∧ isBlank x = true) :
    ∃ t args, parseRound str.length token s = .ok (.inl t) { s with args := args } ∧
      Parsing str t (ws ++ [w]) args := by
  have hlen : (str.bytes.drop token).length = str.length - token := List.length_drop
  have hgo : token < str.length ∧ s.args.argc < shellMaxArgs - 1 := ⟨hlt, h.argc ▸ hfew⟩
  -- the word is the part from `a` to `e`
  obtain ⟨a, ha⟩ : ∃ a, a = token + b.length := ⟨_, rfl⟩
  obtain ⟨e, he⟩ : ∃ e, e = a + w.length := ⟨_, rfl⟩
  have hlens : str.length = e + r.length := by
    rw [hdrop, List.length_append, List.length_append] at hlen
    omega
  have hwpos : 0 < w.length := List.length_pos_iff.mpr hne
  have hrest : str.bytes.drop a = w ++ r := ha ▸ CStr.drop_of_drop hdrop
  have hafter : str.bytes.drop e = r := he ▸ CStr.drop_of_drop hrest
  have hword : ∀ i, a ≤ i → i < e → isBlank (str.byte i) = false := fun i h1 h2 =>
    CStr.byte_of_drop hrest hw h1 (by omega)
  have hscan := scan_line h.unread hL (Nat.le_refl token) (show token ≤ a by omega) (by omega)
    (p := isBlank) (fun i h1 h2 => CStr.byte_of_drop hdrop hb h1 (by omega))
    (hword a (Nat.le_refl a) (by omega))
  have hsplit := split_rest hb hne hw hr
  have hscan' :
      scan .outOfFuel loadArgs isWordChar scanLimit a (entered s a) = .ok e (entered s a) :=
    scan_line (s := entered s a) h.unread hL (show token ≤ a by omega) (by omega) (by omega)
      (fun i h1 h2 => wordChar_iff.mpr ⟨hword i h1 h2, str.byte_ne_zero (by omega)⟩)
      (wordChar_stop hafter hlens hr)
  have hround := parseRound_word hgo hscan (by omega)
    (by rw [h.unread a (by omega) (by omega)]; exact str.byte_ne_zero (by omega)) hscan' (by omega)
  rw [h.unread e (by omega) (by omega)] at hround
  rcases hr with rfl | ⟨x, r', rfl, hx⟩
  · -- the word ends the line
    have hel : e = str.length := by simpa using hlens.symm
    have hnul : str.byte e = 0 := by
      rw [hel]
      exact str.byte_length
    rw [if_neg (not_not.mpr hnul)] at hround
    refine ⟨e, _, hround, ?_⟩
    rw [h.argc, ha]
    refine h.next hdrop hlt hfew ?_ (.inr ⟨by omega, hel⟩) (fun i _ => rfl) ?_
    · rw [hsplit, hafter]
      rfl
    · rw [← ha, ← he, h.unread e (by omega) (by omega), hnul]
  · -- the blank after the word is overwritten
    rw [if_pos (str.byte_ne_zero (by rw [hlens]; simp))] at hround
    refine ⟨e + 1, _, hround, ?_⟩
    show Parsing str (e + 1) (ws ++ [w])
      ⟨s.args.argc + 1, Function.update s.args.argv s.args.argc (some a),
      storeByte s.args.buffer e 0⟩
    rw [h.argc, ha]
    refine h.next hdrop hlt hfew ?_ (.inl ⟨by omega, by rw [hlens]; simp⟩) (fun i hi => ?_) ?_
    · rw [hsplit, ← List.drop_drop, hafter]
      rfl
    · exact storeByte_other (by omega)
    · rw [← ha, ← he, storeByte_same]

/-- **One round** finds the next word, or that there is none. -/
theorem Parsing.round (h : Parsing str token ws s.args) (hL : str.length < shellBufferSize)
    (hlt : token < str.length) (hfew : ws.length < shellMaxArgs - 1) :
    (parseRound str.length token s = .ok (.inr ()) s ∧ splitWords isBlank str.bytes = ws) ∨
      ∃ t w args, parseRound str.length token s = .ok (.inl t) { s with args := args } ∧
        Parsing str t (ws ++ [w]) args := by
  rcases words_cases isBlank (str.bytes.drop token) with hblank | ⟨b, w, r, hdrop, hb, hne, hw, hr⟩
  · exact .inl (h.round_blank hL ⟨hlt, h.argc ▸ hfew⟩ hblank)
  · obtain ⟨t, args, hround, hnext⟩ := h.round_word hL hlt hfew hdrop hb hne hw hr
    exact .inr ⟨t, w, args, hround, hnext⟩

/-- **The loop** ends with the first fifteen words. -/
theorem Parsing.loop (hL : str.length < shellBufferSize) :
    ∀ {n token : Nat} {ws : List (List (BitVec 8))}
    {s : ShellState}, Parsing str token ws s.args → shellMaxArgs - ws.length ≤ n →
    ∃ args token', iterate .outOfFuel (parseRound str.length) n token s =
      .ok () { s with args := args } ∧
      Parsing str token' ((splitWords isBlank str.bytes).take (shellMaxArgs - 1)) args
  | 0, _, _, _, h, hn => by
    have := h.few
    simp only [shellMaxArgs] at this hn
    omega
  | n + 1, token, ws, s, h, hn => by
    by_cases hgo : token < str.length ∧ ws.length < shellMaxArgs - 1
    · rcases h.round hL hgo.1 hgo.2 with ⟨hr, hall⟩ | ⟨t, w, args, hr, hnext⟩
      · refine ⟨s.args, token, iterate_done hr, ?_⟩
        rw [hall, List.take_of_length_le h.few]
        exact h
      · obtain ⟨args', token', hrest, hdone⟩ := Parsing.loop hL (s := { s with args := args }) hnext
          (n := n) (by rw [List.length_append, List.length_singleton]; omega)
        exact ⟨args', token', (iterate_next hr).trans hrest, hdone⟩
    · have hr : parseRound str.length token s = .ok (.inr ()) s := by
        unfold parseRound
        rw [get_bind_apply, if_neg (by rw [h.argc]; exact hgo)]
        rfl
      refine ⟨s.args, token, iterate_done hr, ?_⟩
      have htake : (splitWords isBlank str.bytes).take (shellMaxArgs - 1) = ws := by
        rw [h.words]
        by_cases hlt : token < str.length
        · have hfull : ws.length = shellMaxArgs - 1 := by
            have := h.few
            omega
          rw [← hfull, List.take_left]
        · rw [List.drop_eq_nil_of_le (Nat.not_lt.mp hlt), splitWords_nil, List.append_nil,
            List.take_of_length_le h.few]
      rw [htake]
      exact h

end Round

def argWords (input : CStr) : List (List (BitVec 8)) :=
  (splitWords isBlank input.bytes).take (shellMaxArgs - 1)

example : argWords ⟨bytesOf "  echo\t a bb ", by decide, by decide⟩ =
    [bytesOf "echo", bytesOf "a", bytesOf "bb"] := by decide

/-- **Parsing** a line that `shell_buffer` holds. -/
theorem shellParseArgs_ok {str : CStr} {s : ShellState} (hL : str.length < shellBufferSize)
    (hs : StringAt s.shellBuffer 0 str.bytes) :
    ∃ args, shellParseArgs loadShell s = .ok () { s with args := args } ∧ args.Are (argWords str) ∧
      ∀ w ∈ argWords str, (0 : BitVec 8) ∉ w := by
  have hbyte : ∀ i, i ≤ str.length → s.shellBuffer i = str.byte i := by
    intro i hi
    rcases Nat.lt_or_eq_of_le hi with h | rfl
    · have := hs.bytes i h
      rw [Nat.zero_add] at this
      rw [this, str.byte_lt h]
    · have := hs.nul
      rw [Nat.zero_add] at this
      rw [str.byte_length]
      exact this
  have hcopy : strcpy .outOfFuel storeArgs loadShell scanLimit s = .ok () { s with
      args := { s.args with buffer := overlay s.args.buffer str.byte (str.length + 1) } } :=
    strcpy_apply str
      (fun i => { s with args := { s.args with buffer := overlay s.args.buffer str.byte i } })
      (fun i hi => by rw [loadShell_apply (by omega), ← hbyte i hi])
      (fun i hi => by rw [storeArgs_apply (by omega), ← store_overlay])
      (by unfold scanLimit; omega)
  obtain ⟨s₀, hs₀⟩ : ∃ s₀ : ShellState, s₀ = { s with
      args := ⟨0, s.args.argv, overlay s.args.buffer str.byte (str.length + 1)⟩ } := ⟨_, rfl⟩
  have hread : Reads loadArgs str s₀ := by
    intro i hi
    rw [loadArgs_apply (by omega), hs₀]
    show EStateM.Result.ok (overlay _ _ _ i) _ = _
    rw [overlay, if_pos (by omega)]
  have hstart : Parsing str 0 [] s₀.args := by
    rw [hs₀]
    refine ⟨Nat.zero_le _, rfl, Nat.zero_le _, fun i _ hi => ?_, rfl, by simp, by simp⟩
    exact if_pos (by omega)
  obtain ⟨args, token, hloop, hdone⟩ := Parsing.loop hL hstart (n := shellMaxArgs) (Nat.sub_le _ _)
  have hfew := hdone.few
  refine ⟨{ args with argv := Function.update args.argv args.argc none }, ?_, ⟨hdone.argc, ?_, ?_⟩,
    hdone.noNul⟩
  · unfold shellParseArgs
    refine (bind_of_ok hcopy).trans ((bind_of_ok (t := s₀) (by rw [hs₀]; rfl)).trans
      ((bind_of_ok (strlen_apply hread (by unfold scanLimit; omega))).trans
        ((bind_of_ok hloop).trans ?_)))
    rw [get_bind_apply,
      storeArgv_apply (by rw [hdone.argc]; simp only [shellMaxArgs] at hfew ⊢; omega), hs₀]
  · intro k w hw
    obtain ⟨a, ha, hle, -, hat⟩ := hdone.argv k w hw
    have hk : k < (argWords str).length := (List.getElem?_eq_some_iff.mp hw).1
    refine ⟨a, ?_, by omega, hat⟩
    refine (Function.update_of_ne ?_ _ _).trans ha
    rw [hdone.argc]
    exact Nat.ne_of_lt hk
  · show Function.update args.argv args.argc none (argWords str).length = none
    rw [hdone.argc]
    exact Function.update_self _ _ _

/-! ## The table -/

def commandOf (ws : List (List (BitVec 8))) : Option ShellCommand :=
  ws.head?.bind fun w => ShellCommand.table.find? fun cmd => cmd.nameStr.bytes = w

theorem commandOf_iff {w : List (BitVec 8)} {ws : List (List (BitVec 8))} {cmd : ShellCommand} :
    commandOf (w :: ws) = some cmd ↔ w = cmd.nameStr.bytes := by
  have hbytes : ∀ c ∈ ShellCommand.table, ∀ d ∈ ShellCommand.table,
      bytesOf c.name = bytesOf d.name → c = d := by
    decide +kernel
  have hall : ∀ c : ShellCommand, c ∈ ShellCommand.table := by
    intro c
    cases c <;> decide
  rw [commandOf, List.head?_cons, Option.bind_some]
  constructor
  · intro h
    have := List.find?_some h
    exact (of_decide_eq_true this).symm
  · rintro rfl
    cases hf : ShellCommand.table.find? fun c => c.nameStr.bytes = cmd.nameStr.bytes with
    | none =>
      have := List.find?_eq_none.mp hf cmd (hall cmd)
      simp at this
    | some c =>
      have hdec := List.find?_some hf
      rw [hbytes c (hall c) cmd (hall cmd) (of_decide_eq_true hdec)]

theorem findCommand_apply {s : ShellState} {word : CStr} (h : Reads (loadArg 0) word s)
    (hlen : word.length < shellBufferSize) : ∀ cmds : List ShellCommand,
    findCommand cmds s = .ok (cmds.find? fun cmd => cmd.nameStr.bytes = word.bytes) s
  | [] => rfl
  | cmd :: cmds => by
    obtain ⟨d, hcmp, hiff⟩ :
        ∃ d, strcmp .outOfFuel (loadArg 0) (loadChar cmd.nameStr) scanLimit s = .ok d s ∧
        (d = 0 ↔ word.bytes = cmd.nameStr.bytes) :=
      strcmp_apply h (loadChar_reads cmd.nameStr s) (by unfold scanLimit; omega)
    unfold findCommand
    rw [bind_of_ok hcmp]
    by_cases heq : word.bytes = cmd.nameStr.bytes
    · rw [if_pos (hiff.mpr heq), List.find?_cons_of_pos (by simp [heq])]
      rfl
    · rw [if_neg (fun h0 => heq (hiff.mp h0)),
        List.find?_cons_of_neg (by simpa using fun h => heq h.symm)]
      exact findCommand_apply h hlen cmds

theorem Args.Are.first {args : Args} {w : List (BitVec 8)} {ws : List (List (BitVec 8))}
    (h : args.Are (w :: ws)) (hw : (0 : BitVec 8) ∉ w) {s : ShellState} (hs : s.args = args) :
    ∃ word : CStr, word.bytes = w ∧ word.length < shellBufferSize ∧ Reads (loadArg 0) word s := by
  obtain ⟨a, ha, hlt, hat⟩ := h.argv 0 w rfl
  have hsmall : w.length < 2 ^ 32 := by
    simp only [shellBufferSize] at hlt
    omega
  refine ⟨⟨w, hw, hsmall⟩, rfl, Nat.lt_of_le_of_lt (Nat.le_add_left _ _) hlt, fun i hi => ?_⟩
  have hi : i ≤ w.length := hi
  unfold loadArg
  rw [if_pos (by decide), get_bind_apply, hs, ha]
  show loadArgs (a + i) s = _
  rw [loadArgs_apply (by omega), hs]
  congr 1
  rcases Nat.lt_or_eq_of_le hi with h | rfl
  · rw [hat.bytes i h]
    exact (CStr.byte_lt ⟨w, hw, hsmall⟩ h).symm
  · rw [hat.nul]
    exact (CStr.byte_length ⟨w, hw, hsmall⟩).symm

/-! ## The result -/

theorem onConsole_of_ok {x : C Unit} {s : ShellState} {c : Console} (h : x s.console = .ok () c) :
    onConsole x s = .ok () { s with console := c } := by
  unfold onConsole
  rw [h]

theorem onConsole_of_error {x : C Unit} {s : ShellState} {e : Trap} {c : Console}
    (h : x s.console = .error e c) : onConsole x s = .error e { s with console := c } := by
  unfold onConsole
  rw [h]

theorem onConsole_prints {x : C Unit} (hx : Total (Touches SameText) x) (s : ShellState) :
    ∃ c, onConsole x s = .ok () { s with console := c } := by
  obtain ⟨_, c, hr, -⟩ := hx s.console
  exact ⟨c, onConsole_of_ok hr⟩

theorem onConsole_prompt (s : ShellState) :
    ∃ c, onConsole shellPrintPrompt s = .ok () { s with console := c } := by
  obtain ⟨c, hr, -⟩ := prompt_ok s.console
  exact ⟨c, onConsole_of_ok hr⟩

variable {handlers : Handlers}

/-- How a line that fits ends: with no command called, or with exactly one, on the screens
`c`, and then as that command does. -/
def Executes (handlers : Handlers) (s : ShellState) (args : Args) (x : Sh Unit) :
    Option ShellCommand → Prop
  | none => ∃ s', x s = .ok () s' ∧ s'.args = args ∧ s'.calls = s.calls
  | some cmd => ∃ c,
      (∀ c', handlers cmd args c = .ok () c' →
        ∃ s', x s = .ok () s' ∧ s'.args = args ∧ s'.calls = (cmd, args) :: s.calls) ∧
      ∀ e c', handlers cmd args c = .error e c' →
        ∃ s', x s = .error e s' ∧ s'.args = args ∧ s'.calls = (cmd, args) :: s.calls

/-- What `shell_execute_command` does with the arguments. -/
def dispatch (handlers : Handlers) (args : Args) (ws : List (List (BitVec 8))) : Sh Unit :=
  if ws = [] then pure ()
  else match commandOf ws with
    | some cmd => do
      onConsole (kprintfLine "Executing command: " cmd.nameStr.bytes)
      callCommand handlers cmd
    | none => do
      onConsole (kprintfLine "Unknown command: "
        (cString args.buffer ((args.argv 0).getD 0) shellBufferSize))
      onConsole (kprintf "Type 'help' for available commands.\n")

/-- The command is decided by the words of the line. -/
theorem shellExecuteCommand_eq {str : CStr} {s : ShellState} (hL : str.length < shellBufferSize)
    (hs : StringAt s.shellBuffer 0 str.bytes) : ∃ args : Args, args.Are (argWords str) ∧
      ∀ handlers, shellExecuteCommand handlers loadShell s =
        dispatch handlers args (argWords str) { s with args := args } := by
  obtain ⟨args, hparse, hare, hno⟩ := shellParseArgs_ok hL hs
  refine ⟨args, hare, fun handlers => ?_⟩
  unfold shellExecuteCommand dispatch
  cases hws : argWords str with
  | nil =>
    have h0 : args.argc = 0 := by
      rw [hare.argc, hws]
      rfl
    rw [bind_of_ok hparse, get_bind_apply, if_neg (not_not.mpr h0), if_pos rfl]
  | cons w ws =>
    rw [hws] at hare hno
    obtain ⟨word, rfl, hlen, hread⟩ := hare.first (hno w List.mem_cons_self)
      (s := { s with args := args }) rfl
    have hne : args.argc ≠ 0 := by
      rw [hare.argc]
      exact Nat.succ_ne_zero _
    rw [bind_of_ok hparse, get_bind_apply, if_pos hne,
      bind_of_ok (findCommand_apply hread hlen ShellCommand.table), if_neg (List.cons_ne_nil _ _)]
    rfl

/-- A line that fits runs the command it names. -/
theorem dispatch_executes (handlers : Handlers) (s : ShellState)
    (args : Args) (ws : List (List (BitVec 8))) :
    Executes handlers s args (fun t => dispatch handlers args ws { t with args := args })
      (commandOf ws) := by
  unfold dispatch
  by_cases hws : ws = []
  · subst hws
    exact ⟨{ s with args := args }, rfl, rfl, rfl⟩
  rw [if_neg hws]
  cases commandOf ws with
  | none =>
    obtain ⟨c₁, h₁⟩ := onConsole_prints (screenPutstring_draws _) { s with args := args }
    obtain ⟨c₂, h₂⟩ :=
      onConsole_prints (screenPutstring_draws _) { s with args := args, console := c₁ }
    exact ⟨{ s with args := args, console := c₂ }, (bind_of_ok h₁).trans h₂, rfl, rfl⟩
  | some cmd =>
    obtain ⟨c₁, h₁⟩ := onConsole_prints (screenPutstring_draws _) { s with args := args }
    refine ⟨c₁, fun c' hok =>
      ⟨{ s with args := args, console := c', calls := (cmd, args) :: s.calls }, ?_,
      rfl, rfl⟩, fun e c' herr =>
        ⟨{ s with args := args, console := c', calls := (cmd, args) :: s.calls }, ?_,
      rfl, rfl⟩⟩
    · exact (bind_of_ok h₁).trans (onConsole_of_ok hok)
    · exact (bind_of_ok h₁).trans (onConsole_of_error herr)

theorem Executes.prompt {s : ShellState} {args : Args} {x : Sh Unit} {r : Option ShellCommand}
    (h : Executes handlers s args x r) :
    Executes handlers s args (x >>= fun _ => onConsole shellPrintPrompt) r := by
  cases r with
  | none =>
    obtain ⟨s', hr, hargs, hcalls⟩ := h
    obtain ⟨c, hp⟩ := onConsole_prompt s'
    exact ⟨_, (bind_of_ok hr).trans hp, hargs, hcalls⟩
  | some cmd =>
    obtain ⟨c, hok, herr⟩ := h
    refine ⟨c, fun c' h' => ?_, fun e c' h' => ?_⟩
    · obtain ⟨s', hr, hargs, hcalls⟩ := hok c' h'
      obtain ⟨d, hp⟩ := onConsole_prompt s'
      exact ⟨_, (bind_of_ok hr).trans hp, hargs, hcalls⟩
    · obtain ⟨s', hr, hargs, hcalls⟩ := herr e c' h'
      exact ⟨s', bind_of_error hr, hargs, hcalls⟩

theorem strlenLine_ok (input : CStr) (s : ShellState) :
    strlen .outOfFuel (loadChar input) addressSpace s = .ok input.length s :=
  strlen_apply (loadChar_reads input s) input.small

theorem copyLine_ok (input : CStr) (hL : input.length < shellBufferSize) (s : ShellState) :
    ∃ m, strcpy .outOfFuel storeShell (loadChar input) addressSpace s =
      .ok () { s with shellBuffer := m } ∧
      StringAt m 0 input.bytes := by
  have hcopy : strcpy .outOfFuel storeShell (loadChar input) addressSpace s = .ok () { s with
      shellBuffer := overlay s.shellBuffer input.byte (input.length + 1) } :=
    strcpy_apply input (fun i => { s with shellBuffer := overlay s.shellBuffer input.byte i })
      (fun i hi => loadChar_reads input _ i hi)
      (fun i hi => by rw [storeShell_apply (by omega), ← store_overlay]) input.small
  exact ⟨_, hcopy, overlay_stringAt s.shellBuffer input⟩

/-- **From a line to a command.** A line of length 0, or of 255 and more, calls no command.
Any other line is cut into its words, the first fifteen of which become the arguments;
the command called, once and with these arguments, is the one that the first word
names, if there is one. No array is accessed outside its bounds: the run returns,
or stops where the command does. -/
theorem shellProcessInput_runs (handlers : Handlers) (input : CStr) (s : ShellState) :
    if input.length = 0 ∨ shellBufferSize - 1 ≤ input.length then
      ∃ s', Shell.shellProcessInput handlers input s = .ok () s' ∧ s'.calls = s.calls
    else ∃ args : Args, args.Are (argWords input) ∧
      Executes handlers s args (Shell.shellProcessInput handlers input)
        (commandOf (argWords input)) := by
  have hlen := strlenLine_ok input s
  by_cases h0 : input.length = 0
  · rw [if_pos (.inl h0)]
    obtain ⟨c, hp⟩ := onConsole_prompt s
    refine ⟨{ s with console := c }, ?_, rfl⟩
    unfold Shell.shellProcessInput
    rw [bind_of_ok hlen, if_pos h0]
    exact hp
  by_cases hL : input.length < shellBufferSize - 1
  · rw [if_neg (by omega)]
    obtain ⟨m, hcopy, hm⟩ := copyLine_ok input (by simp only [shellBufferSize] at hL ⊢; omega) s
    obtain ⟨args, hare, hexec⟩ := shellExecuteCommand_eq
      (s := { s with shellBuffer := m }) (by simp only [shellBufferSize] at hL ⊢; omega) hm
    refine ⟨args, hare, ?_⟩
    have hrun : Shell.shellProcessInput handlers input s =
        ((fun t => dispatch handlers args (argWords input) { t with args := args } : Sh Unit) >>=
          fun _ => onConsole shellPrintPrompt) { s with shellBuffer := m } := by
      unfold Shell.shellProcessInput
      rw [bind_of_ok hlen, if_neg h0, if_pos hL, bind_of_ok hcopy]
      simp only [bind, EStateM.bind, hexec handlers]
    have hex :=
      (dispatch_executes handlers { s with shellBuffer := m } args (argWords input)).prompt
    unfold Executes at hex ⊢
    rw [hrun]
    exact hex
  · rw [if_pos (.inr (Nat.le_of_not_lt hL))]
    obtain ⟨c₁, h₁⟩ := onConsole_prints (screenPutstring_draws (bytesOf "Command too long!\n")) s
    obtain ⟨c₂, h₂⟩ := onConsole_prompt { s with console := c₁ }
    refine ⟨{ s with console := c₂ }, ?_, rfl⟩
    unfold Shell.shellProcessInput
    rw [bind_of_ok hlen, if_neg h0, if_neg hL]
    exact (bind_of_ok h₁).trans h₂

/-! ## Commands that print

`shellProcessInput` takes the output of a line as given. With commands that print, the
shell does what it says, for one such output. -/

theorem runOut_append : ∀ (o o' : List Out) (c : Console),
    runOut (o ++ o') c = (runOut o >>= fun _ => runOut o') c
  | [], _, _ => rfl
  | op :: o, o', c => by
    obtain ⟨_, c₁, h₁, -⟩ := runOut_draws [op] c
    have hop : op.run c = .ok () c₁ := by
      obtain ⟨_, d, h, h'⟩ := bind_eq_ok.mp h₁
      cases h'
      exact h
    obtain ⟨_, c₂, h₂, -⟩ := runOut_draws o c₁
    have hall : runOut (op :: o) c = .ok () c₂ := (bind_of_ok hop).trans h₂
    show (op.run >>= fun _ => runOut (o ++ o')) c = _
    rw [bind_of_ok hop, runOut_append o o' c₁, bind_of_ok h₂, bind_of_ok hall]

theorem runOut_chars : ∀ str : List (BitVec 8), runOut (str.map .char) = screenPutstring str
  | [] => rfl
  | b :: str => by
    show (screenPutchar b >>= fun _ => runOut (str.map .char)) = _
    rw [runOut_chars str]
    rfl

/-- The code does to the screens what printing `out` does. -/
def Outputs (x : Sh Unit) (s : ShellState) (out : List Out) : Prop :=
  ∃ s', x s = .ok () s' ∧ runOut out s.console = .ok () s'.console

theorem onConsole_outputs (out : List Out) (s : ShellState) :
    Outputs (onConsole (runOut out)) s out := by
  obtain ⟨_, c, hr, -⟩ := runOut_draws out s.console
  exact ⟨_, onConsole_of_ok hr, hr⟩

theorem Outputs.bind {x : Sh Unit} {f : Unit → Sh Unit} {s : ShellState} {o o' : List Out}
    (hx : Outputs x s o) (hf : ∀ s', Outputs (f ()) s' o') : Outputs (x >>= f) s (o ++ o') := by
  obtain ⟨s₁, h₁, hr₁⟩ := hx
  obtain ⟨s₂, h₂, hr₂⟩ := hf s₁
  exact ⟨s₂, (bind_of_ok h₁).trans h₂, by rw [runOut_append, bind_of_ok hr₁, hr₂]⟩

theorem print_outputs (str : List (BitVec 8)) (s : ShellState) :
    Outputs (onConsole (screenPutstring str)) s (str.map .char) := by
  rw [← runOut_chars]
  exact onConsole_outputs _ s

theorem dispatch_outputs (h : ShellCommand → Args → List Out) (args : Args)
    (ws : List (List (BitVec 8))) (s : ShellState) :
    ∃ out, Outputs (dispatch (fun cmd args => runOut (h cmd args)) args ws)
      { s with args := args } out := by
  unfold dispatch
  by_cases hws : ws = []
  · rw [if_pos hws]
    exact ⟨[], _, rfl, rfl⟩
  rw [if_neg hws]
  cases commandOf ws with
  | none => exact ⟨_, (print_outputs _ _).bind fun s' => print_outputs _ s'⟩
  | some cmd =>
    obtain ⟨s₁, h₁, hr₁⟩ := print_outputs
      (bytesOf "Executing command: " ++ cmd.nameStr.bytes ++ [newline])
      { s with args := args }
    obtain ⟨s₂, h₂, hr₂⟩ :=
      onConsole_outputs (h cmd s₁.args) { s₁ with calls := (cmd, s₁.args) :: s₁.calls }
    refine ⟨(bytesOf "Executing command: " ++ cmd.nameStr.bytes ++ [newline]).map .char ++
      h cmd s₁.args, s₂,
      (bind_of_ok h₁).trans h₂, ?_⟩
    rw [runOut_append, bind_of_ok hr₁]
    exact hr₂

/-- **The shell refines its model** in which a line's output is given. -/
theorem shellProcessInput_refines (h : ShellCommand → Args → List Out)
    (input : CStr) (s : ShellState) :
    ∃ out s', Shell.shellProcessInput (fun cmd args => runOut (h cmd args)) input s = .ok () s' ∧
      shellProcessInput input.bytes out s.console = .ok () s'.console := by
  have hlen := strlenLine_ok input s
  by_cases h0 : input.length = 0
  · obtain ⟨c, hp, -⟩ := prompt_ok s.console
    refine ⟨[], { s with console := c }, ?_, ?_⟩
    · unfold Shell.shellProcessInput
      rw [bind_of_ok hlen, if_pos h0]
      exact onConsole_of_ok hp
    · unfold shellProcessInput
      rw [if_neg (show ¬ input.bytes.length ≠ 0 from not_not.mpr h0)]
      exact hp
  -- with a line to process, the prompt follows the output
  have hfollow : ∀ {x : Sh Unit} {out : List Out} {t : ShellState}, Outputs x t out →
    t.console = s.console →
      Shell.shellProcessInput (fun cmd args => runOut (h cmd args)) input s =
        (x >>= fun _ => onConsole shellPrintPrompt) t →
      ∃ out s', Shell.shellProcessInput (fun cmd args => runOut (h cmd args)) input s = .ok () s' ∧
        shellProcessInput input.bytes out s.console = .ok () s'.console := by
    rintro x out t ⟨s₁, h₁, hr₁⟩ hcon hrun
    obtain ⟨c, hp, -⟩ := prompt_ok s₁.console
    refine ⟨out, { s₁ with console := c },
      hrun.trans ((bind_of_ok h₁).trans (onConsole_of_ok hp)), ?_⟩
    unfold shellProcessInput
    rw [if_pos (show input.bytes.length ≠ 0 from h0), ← hcon]
    exact (bind_of_ok hr₁).trans hp
  by_cases hL : input.length < shellBufferSize - 1
  · obtain ⟨m, hcopy, hm⟩ := copyLine_ok input (by simp only [shellBufferSize] at hL ⊢; omega) s
    obtain ⟨args, -, hexec⟩ := shellExecuteCommand_eq
      (s := { s with shellBuffer := m }) (by simp only [shellBufferSize] at hL ⊢; omega) hm
    obtain ⟨out, hout⟩ := dispatch_outputs h args (argWords input) { s with shellBuffer := m }
    refine hfollow hout rfl ?_
    unfold Shell.shellProcessInput
    rw [bind_of_ok hlen, if_neg h0, if_pos hL, bind_of_ok hcopy]
    simp only [bind, EStateM.bind, hexec]
  · refine hfollow (print_outputs (bytesOf "Command too long!\n") s) rfl ?_
    unfold Shell.shellProcessInput
    rw [bind_of_ok hlen, if_neg h0, if_neg hL]
    rfl

end Kfs
