import Kfs.Printf
import Kfs.Lib.Escape

/-!
# Inside the format string (`kprintf.c`)

To say what `kprintfv` reads, its walk runs with the bytes of the format and `va_arg`
as parameters (`kprintfvFrom`); `kprintfv` is the walk over plain memory. Behind a
fence a byte after the NUL is refused, and so is an argument that was not supplied.

The walk moves its pointer at two places, and only the loop's own test looks for the
NUL. A `%` right before the NUL takes the NUL for its letter, and the loop goes on
behind it. In every other format each `%` has a letter (`Lib.pieces`), the walk stops
at the NUL, and what it prints is the text of the pieces.
-/

namespace Kfs

open Kfs.Lib

/-! ## The walk with its reads in view -/

/-- Where the walk gets its input: the byte at an address of the format, and `va_arg`. -/
structure FormatInput (A : Type) where
  byte : Nat → C (BitVec 8)
  vaArg : A → C (BitVec 32 × A)

section From

variable {A : Type} (inp : FormatInput A) (m : Mem)

/-- `%` followed by `d`. -/
def printDirectiveFrom (d : BitVec 8) (args : A) : C A := do
  if d = 115 then -- s
    let (str, args) ← inp.vaArg args
    screenPutstring (cString m str.toNat addressSpace)
    return args
  else if d = 99 then -- c
    let (c, args) ← inp.vaArg args
    screenPutchar (c.setWidth 8)
    return args
  else if d = 100 then -- d
    let (val, args) ← inp.vaArg args
    printDecimal val
    return args
  else if d = 120 ∨ d = 112 then -- x, p
    let (val, args) ← inp.vaArg args
    printHex val
    return args
  else if d = percent then
    screenPutchar percent
    return args
  else
    return args

/-- The walk over the format at `fmt`, at most `n` rounds of it, and the arguments left. -/
def kprintfvFrom : Nat → Nat → A → C A
  | 0, _, _ => throw .outOfFuel
  | n + 1, fmt, args => do
    let b ← inp.byte fmt
    if b = 0 then
      return args
    else if b = percent then
      let d ← inp.byte (fmt + 1)
      let args ← printDirectiveFrom inp m d args
      kprintfvFrom n (fmt + 2) args
    else
      screenPutchar b
      kprintfvFrom n (fmt + 1) args

end From

/-- Memory and a `va_list`. -/
def plainInput (m : Mem) : FormatInput VaList where
  byte a := return m a
  vaArg args := return (args 0, args.rest)

/-- Nothing behind `stop` may be read, and only the listed arguments may be taken. -/
def fencedInput (m : Mem) (stop : Nat) : FormatInput (List (BitVec 32)) where
  byte a := if a ≤ stop then return m a else throw (.pageFault a)
  vaArg
    | [] => throw (.outOfBounds 0)
    | v :: args => return (v, args)

/-! ## What it should print -/

def TakesArg (d : BitVec 8) : Prop := d = 115 ∨ d = 99 ∨ d = 100 ∨ d = 120 ∨ d = 112

instance (d : BitVec 8) : Decidable (TakesArg d) :=
  inferInstanceAs (Decidable (d = 115 ∨ d = 99 ∨ d = 100 ∨ d = 120 ∨ d = 112))

/-- The text of the argument `v` for letter `d`. -/
def rendering (m : Mem) (d : BitVec 8) (v : BitVec 32) : List (BitVec 8) :=
  if d = 115 then cString m v.toNat addressSpace
  else if d = 99 then [v.setWidth 8]
  else if d = 100 then decimalText v
  else hexText v

/-- **The text of a format**: the characters as they are, the letters with an argument as their
renderings, in order, and `%%` as `%`. -/
def piecesText (m : Mem) : List (Piece (BitVec 8)) → List (BitVec 32) → List (BitVec 8)
  | [], _ => []
  | .lit b :: ps, args => b :: piecesText m ps args
  | .esc d :: ps, args =>
    if TakesArg d then
      match args with
      | v :: args => rendering m d v ++ piecesText m ps args
      | [] => []
    else if d = percent then percent :: piecesText m ps args
    else piecesText m ps args

theorem piecesText_takes {m : Mem} {d : BitVec 8} (hd : TakesArg d) (ps : List (Piece (BitVec 8)))
    (v : BitVec 32) (args : List (BitVec 32)) :
    piecesText m (.esc d :: ps) (v :: args) = rendering m d v ++ piecesText m ps args := if_pos hd

theorem piecesText_other {m : Mem} {d : BitVec 8} (hd : ¬ TakesArg d) (ps : List (Piece (BitVec 8)))
    (args : List (BitVec 32)) : piecesText m (.esc d :: ps) args =
      (if d = percent then [percent] else []) ++ piecesText m ps args := by
  have hstep : piecesText m (.esc d :: ps) args =
      if d = percent then percent :: piecesText m ps args else piecesText m ps args := if_neg hd
  rw [hstep]
  split_ifs <;> rfl

theorem piecesText_lits (m : Mem) (ps : List (Piece (BitVec 8))) (args : List (BitVec 32)) :
    ∀ u : List (BitVec 8), piecesText m (u.map .lit ++ ps) args = u ++ piecesText m ps args
  | [] => rfl
  | b :: u => congrArg (b :: ·) (piecesText_lits m ps args u)

def Piece.takes : Piece (BitVec 8) → Bool
  | .lit _ => false
  | .esc d => TakesArg d

def argCount (s : List (BitVec 8)) : Nat := (pieces percent s).countP Piece.takes

theorem argCount_takes {d : BitVec 8} (hd : TakesArg d) (s : List (BitVec 8)) :
    argCount (percent :: d :: s) = argCount s + 1 := by
  unfold argCount
  rw [pieces_esc, List.countP_cons_of_pos (by simpa [Piece.takes] using hd)]

theorem argCount_other {d : BitVec 8} (hd : ¬ TakesArg d) (s : List (BitVec 8)) :
    argCount (percent :: d :: s) = argCount s := by
  unfold argCount
  rw [pieces_esc, List.countP_cons_of_neg (by simpa [Piece.takes] using hd)]

theorem argCount_append {u : List (BitVec 8)} (h : percent ∉ u) (s : List (BitVec 8)) :
    argCount (u ++ s) = argCount s := by
  unfold argCount
  rw [pieces_append s h, List.countP_append, List.countP_eq_zero.mpr, Nat.zero_add]
  intro p hp
  obtain ⟨b, -, rfl⟩ := List.mem_map.mp hp
  exact Bool.false_ne_true

/-- The `va_list` starts with these arguments. -/
def VaList.Holds (va : VaList) (args : List (BitVec 32)) : Prop :=
  ∀ i, (h : i < args.length) → va i = args[i]

/-- **The walk stays inside** the format `s` at `fmt`: behind the fence it returns, with every
argument taken, and has printed the text of the format; `kprintfv` does the same. -/
def StaysInside (m : Mem) (fmt : Nat) (s : List (BitVec 8)) (args : List (BitVec 32)) : Prop :=
  ∀ c n, s.length < n → ∃ c',
    kprintfvFrom (fencedInput m (fmt + s.length)) m n fmt args c = .ok [] c' ∧
    screenPutstring (piecesText m (pieces percent s) args) c = .ok () c' ∧
    ∀ va : VaList, va.Holds args → kprintfv m n fmt va c = .ok () c'

/-! ## One directive -/

section Directive

variable {A : Type} {inp : FormatInput A} {m : Mem} {d : BitVec 8}

theorem printDirectiveFrom_takes (hd : TakesArg d) (args : A) :
    printDirectiveFrom inp m d args = (do
      let (v, args) ← inp.vaArg args
      screenPutstring (rendering m d v)
      return args : C A) := by
  have hchar : ∀ b, screenPutchar b = screenPutstring [b] :=
    fun b => funext fun c => (screenPutstring_single b c).symm
  have hdec : ∀ v, printDecimal v = screenPutstring (decimalText v) :=
    fun v => funext (printDecimal_puts v)
  have hhex : ∀ v, printHex v = screenPutstring (hexText v) := fun v => funext (printHex_puts v)
  unfold printDirectiveFrom rendering
  rcases hd with rfl | rfl | rfl | rfl | rfl
  · rfl
  · simp only [hchar]
    rfl
  · simp only [hdec]
    rfl
  · simp only [hhex]
    rfl
  · simp only [hhex]
    rfl

/-- Any other letter takes none, and of these only `%` prints. -/
theorem printDirectiveFrom_other (hd : ¬ TakesArg d) (args : A) :
    printDirectiveFrom inp m d args = (do
      screenPutstring (if d = percent then [percent] else [])
      return args : C A) := by
  simp only [TakesArg, not_or] at hd
  obtain ⟨h1, h2, h3, h4, h5⟩ := hd
  unfold printDirectiveFrom
  rw [if_neg h1, if_neg h2, if_neg h3, if_neg (not_or.mpr ⟨h4, h5⟩)]
  split_ifs
  · rw [show screenPutchar percent = screenPutstring [percent] from
      funext fun c => (screenPutstring_single percent c).symm]
  · rfl

end Directive

/-! ## The fence and plain memory -/

/-- Whatever one input gives, the other gives too. -/
structure Serves {A B : Type} (inp : FormatInput A) (inp' : FormatInput B) (R : A → B → Prop) :
    Prop where
  byte : ∀ {a c b c'}, inp.byte a c = .ok b c' → inp'.byte a c = .ok b c'
  vaArg : ∀ {args args' c v rest c'}, R args args' → inp.vaArg args c = .ok (v, rest) c' →
    ∃ rest', inp'.vaArg args' c = .ok (v, rest') c' ∧ R rest rest'

section Serves

variable {A B : Type} {inp : FormatInput A} {inp' : FormatInput B} {R : A → B → Prop} {m : Mem}

theorem Serves.directive (h : Serves inp inp' R) {d : BitVec 8} {args rest : A} {args' : B}
    {c c' : Console} (hR : R args args') (hr : printDirectiveFrom inp m d args c = .ok rest c') :
    ∃ rest', printDirectiveFrom inp' m d args' c = .ok rest' c' ∧ R rest rest' := by
  by_cases hd : TakesArg d
  · rw [printDirectiveFrom_takes hd] at hr ⊢
    obtain ⟨⟨v, _⟩, c₁, h₁, hr⟩ := bind_eq_ok.mp hr
    obtain ⟨_, c₂, h₂, hr⟩ := bind_eq_ok.mp hr
    cases hr
    obtain ⟨rest', h₁', hR'⟩ := h.vaArg hR h₁
    exact ⟨rest', (bind_of_ok h₁').trans ((bind_of_ok h₂).trans rfl), hR'⟩
  · rw [printDirectiveFrom_other hd] at hr ⊢
    obtain ⟨_, c₁, h₁, hr⟩ := bind_eq_ok.mp hr
    cases hr
    exact ⟨args', (bind_of_ok h₁).trans rfl, hR⟩

/-- **A walk** does too. -/
theorem Serves.walk (h : Serves inp inp' R) :
    ∀ {n fmt : Nat} {args rest : A} {args' : B} {c c' : Console},
    R args args' → kprintfvFrom inp m n fmt args c = .ok rest c' →
    ∃ rest', kprintfvFrom inp' m n fmt args' c = .ok rest' c' ∧ R rest rest'
  | 0, _, _, _, _, _, _, _, hr => by cases hr
  | n + 1, fmt, args, rest, args', c, c', hR, hr => by
    unfold kprintfvFrom at hr ⊢
    obtain ⟨b, c₁, hb, hr⟩ := bind_eq_ok.mp hr
    rw [bind_of_ok (h.byte hb)]
    by_cases h0 : b = 0
    · rw [if_pos h0] at hr ⊢
      cases hr
      exact ⟨args', rfl, hR⟩
    rw [if_neg h0] at hr ⊢
    by_cases hp : b = percent
    · rw [if_pos hp] at hr ⊢
      obtain ⟨d, c₂, hd, hr⟩ := bind_eq_ok.mp hr
      obtain ⟨_, c₃, hdir, hr⟩ := bind_eq_ok.mp hr
      obtain ⟨_, hdir', hR'⟩ := h.directive hR hdir
      rw [bind_of_ok (h.byte hd), bind_of_ok hdir']
      exact h.walk hR' hr
    · rw [if_neg hp] at hr ⊢
      obtain ⟨_, c₂, hput, hr⟩ := bind_eq_ok.mp hr
      rw [bind_of_ok hput]
      exact h.walk hR hr

end Serves

theorem VaList.Holds.rest {va : VaList} {v : BitVec 32} {args : List (BitVec 32)}
    (h : va.Holds (v :: args)) :
    va 0 = v ∧ va.rest.Holds args :=
  ⟨h 0 (Nat.succ_pos _), fun i hi => h (i + 1) (Nat.succ_lt_succ hi)⟩

theorem plain_serves (m : Mem) (stop : Nat) :
    Serves (fencedInput m stop) (plainInput m) fun args va => va.Holds args where
  byte {a c b c'} hb := by
    unfold fencedInput at hb
    dsimp only at hb
    split at hb
    · exact hb
    · cases hb
  vaArg {args va c v rest c'} hR hv := by
    match args with
    | [] => cases hv
    | w :: args =>
      cases hv
      obtain ⟨h0, hrest⟩ := hR.rest
      exact ⟨va.rest, by rw [← h0]; rfl, hrest⟩

theorem printDirectiveFrom_plain (m : Mem) (d : BitVec 8) (args : VaList) :
    printDirectiveFrom (plainInput m) m d args = printDirective m d args := by
  unfold printDirectiveFrom printDirective
  split_ifs <;> rfl

/-- **`kprintfv` is the walk over plain memory.** -/
theorem kprintfv_plainInput (m : Mem) : ∀ (n fmt : Nat) (args : VaList) (c : Console),
    kprintfv m n fmt args c = (do
      let _ ← kprintfvFrom (plainInput m) m n fmt args
      return () : C Unit) c
  | 0, _, _, _ => rfl
  | n + 1, fmt, args, c => by
    have hbyte : ∀ (a : Nat) (c : Console), (plainInput m).byte a c = .ok (m a) c := fun _ _ => rfl
    unfold kprintfv kprintfvFrom
    rw [bind_assoc, bind_of_ok (hbyte fmt c)]
    by_cases h0 : m fmt = 0
    · rw [if_pos h0, if_pos h0]
      rfl
    rw [if_neg h0, if_neg h0]
    by_cases hp : m fmt = percent
    · rw [if_pos hp, if_pos hp, bind_assoc, bind_of_ok (hbyte (fmt + 1) c),
        printDirectiveFrom_plain,
        bind_assoc]
      exact congrArg (· c) (congrArg (printDirective m (m (fmt + 1)) args >>= ·)
        (funext fun args => funext (kprintfv_plainInput m n (fmt + 2) args)))
    · rw [if_neg hp, if_neg hp, bind_assoc]
      exact congrArg (· c) (congrArg (screenPutchar (m fmt) >>= ·)
        (funext fun _ => funext (kprintfv_plainInput m n (fmt + 1) args)))

/-! ## The walk behind the fence -/

section Fence

variable {m : Mem} {stop : Nat}

theorem fenced_byte {a : Nat} (h : a ≤ stop) (c : Console) :
    (fencedInput m stop).byte a c = .ok (m a) c := by
  unfold fencedInput
  dsimp only
  rw [if_pos h]
  rfl

theorem fenced_off {a : Nat} (h : stop < a) (c : Console) :
    (fencedInput m stop).byte a c = .error (.pageFault a) c := by
  unfold fencedInput
  dsimp only
  rw [if_neg (Nat.not_le_of_lt h)]
  rfl

theorem fenced_lit {n fmt : Nat} {args : List (BitVec 32)} (h : fmt ≤ stop) (h0 : m fmt ≠ 0)
    (hp : m fmt ≠ percent) (c : Console) :
    kprintfvFrom (fencedInput m stop) m (n + 1) fmt args c = (do
      screenPutchar (m fmt)
      kprintfvFrom (fencedInput m stop) m n (fmt + 1) args : C _) c := by
  rw [kprintfvFrom, bind_of_ok (fenced_byte h c), if_neg h0, if_neg hp]

theorem fenced_esc {n fmt : Nat} {args : List (BitVec 32)} (h : fmt + 1 ≤ stop)
    (hp : m fmt = percent)
    (c : Console) : kprintfvFrom (fencedInput m stop) m (n + 1) fmt args c = (do
      let args ← printDirectiveFrom (fencedInput m stop) m (m (fmt + 1)) args
      kprintfvFrom (fencedInput m stop) m n (fmt + 2) args : C _) c := by
  rw [kprintfvFrom, bind_of_ok (fenced_byte (by omega) c), hp, if_neg (by decide), if_pos rfl,
    bind_of_ok (fenced_byte h c)]

/-- **A directive** with the arguments of the format it is in front of: what it prints is in
front of the rest's text, and the arguments it leaves are the rest's. -/
theorem fenced_directive {d : BitVec 8} {s : List (BitVec 8)} {args : List (BitVec 32)}
    (hargs : args.length = argCount (percent :: d :: s)) (c : Console) :
    ∃ text rest c', rest.length = argCount s ∧
      piecesText m (.esc d :: pieces percent s) args = text ++ piecesText m
        (pieces percent s) rest ∧
      screenPutstring text c = .ok () c' ∧
      printDirectiveFrom (fencedInput m stop) m d args c = .ok rest c' := by
  by_cases hd : TakesArg d
  · rw [argCount_takes hd] at hargs
    obtain ⟨v, rest, rfl⟩ := List.exists_cons_of_length_eq_add_one hargs
    obtain ⟨_, c', hr, -⟩ := screenPutstring_draws (rendering m d v) c
    refine ⟨_, rest, c', Nat.succ.inj hargs, piecesText_takes hd _ v rest, hr, ?_⟩
    rw [printDirectiveFrom_takes hd]
    exact bind_of_ok hr
  · rw [argCount_other hd] at hargs
    obtain ⟨_, c', hr, -⟩ := screenPutstring_draws (if d = percent then [percent] else []) c
    refine ⟨_, args, c', hargs, piecesText_other hd _ args, hr, ?_⟩
    rw [printDirectiveFrom_other hd]
    exact bind_of_ok hr

/-- **The walk over a format**, with the arguments it takes: it prints the text of the pieces and
ends at the NUL, or reads on behind it after a `%` without a letter. -/
theorem fenced_walk (s : List (BitVec 8)) : ∀ {fmt n : Nat} {args : List (BitVec 32)} (c : Console),
    StringAt m fmt s → 0 ∉ s → fmt + s.length = stop → args.length = argCount s →
    (pieces percent s).length + (dangling percent s).toNat < n →
    ∃ c', screenPutstring (piecesText m (pieces percent s) args) c = .ok () c' ∧
      kprintfvFrom (fencedInput m stop) m n fmt args c =
        if dangling percent s then .error (.pageFault (stop + 1)) c' else .ok [] c' := by
  induction s using escape_induction (e := percent) with
  | nil =>
    intro fmt n args c hs _ hstop hargs hn
    obtain ⟨k, rfl⟩ := Nat.exists_eq_add_of_lt hn
    obtain rfl := List.eq_nil_of_length_eq_zero hargs
    have hstop : fmt = stop := hstop
    have hnul : m fmt = 0 := hs.nul
    refine ⟨c, rfl, ?_⟩
    rw [kprintfvFrom, bind_of_ok (fenced_byte (Nat.le_of_eq hstop) c), if_pos hnul]
    rfl
  | alone =>
    intro fmt n args c hs _ hstop hargs hn
    obtain ⟨k, rfl⟩ : ∃ k, n = k + 1 + 1 := ⟨n - 2, by
      rw [dangling_alone, Bool.toNat_true] at hn
      omega⟩
    have hstop : fmt + 1 = stop := hstop
    have hnul : m (fmt + 1) = 0 := hs.nul
    refine ⟨c, rfl, ?_⟩
    -- the NUL is the letter, and the walk goes on behind it
    have hdir : printDirectiveFrom (fencedInput m stop) m 0 args c = .ok args c := by
      rw [printDirectiveFrom_other (by decide)]
      rfl
    rw [fenced_esc (Nat.le_of_eq hstop) hs.head, hnul, bind_of_ok hdir, kprintfvFrom,
      bind_of_error (fenced_off (a := fmt + 2) (by omega) c), dangling_alone, if_pos rfl, ← hstop]
  | esc d s ih =>
    intro fmt n args c hs h0 hstop hargs hn
    rw [pieces_esc, dangling_esc] at hn
    simp only [List.length_cons] at hstop hn
    obtain ⟨k, rfl⟩ : ∃ k, n = k + 1 := ⟨n - 1, by omega⟩
    have h0' : 0 ∉ s := fun h => h0 (List.mem_cons_of_mem _ (List.mem_cons_of_mem _ h))
    have hletter : m (fmt + 1) = d := hs.tail.head
    obtain ⟨text, rest, c₁, hrest, htext, h₁, hdir⟩ := fenced_directive hargs c
    obtain ⟨c', hr, hw⟩ := ih (n := k) c₁ hs.tail.tail h0' (by omega) hrest (by omega)
    refine ⟨c', ?_, ?_⟩
    · rw [pieces_esc, htext, screenPutstring_append, bind_of_ok h₁]
      exact hr
    · rw [fenced_esc (by omega) hs.head, hletter, dangling_esc, bind_of_ok hdir]
      exact hw
  | lit a s ha ih =>
    intro fmt n args c hs h0 hstop hargs hn
    rw [pieces_lit ha, dangling_lit ha] at hn
    simp only [List.length_cons] at hstop hn
    obtain ⟨k, rfl⟩ : ∃ k, n = k + 1 := ⟨n - 1, by omega⟩
    rw [List.mem_cons, not_or] at h0
    have hcount : argCount (a :: s) = argCount s :=
      argCount_append (fun h => ha (List.mem_singleton.mp h).symm) s
    rw [hcount] at hargs
    obtain ⟨_, c₁, h₁, -⟩ := screenPutchar_draws a c
    obtain ⟨c', hr, hw⟩ := ih (n := k) c₁ hs.tail h0.2 (by omega) hargs (by omega)
    have hb : m fmt = a := hs.head
    refine ⟨c', ?_, ?_⟩
    · rw [pieces_lit ha, piecesText]
      exact (bind_of_ok h₁).trans hr
    · rw [fenced_lit (by omega) (by rw [hb]; exact Ne.symm h0.1) (by rw [hb]; exact ha), hb,
        bind_of_ok h₁, dangling_lit ha]
      exact hw

end Fence

section Inside

variable {m : Mem} {fmt n : Nat} {s : List (BitVec 8)} {args : List (BitVec 32)}

/-- **A format in which every `%` has a letter**: `kprintfv` prints the text of its pieces. -/
theorem kprintfv_text {va : VaList} (hs : StringAt m fmt s) (h0 : 0 ∉ s)
    (hd : dangling percent s = false)
    (hva : va.Holds args) (hargs : args.length = argCount s) (hn : (pieces percent s).length < n)
    (c : Console) :
    kprintfv m n fmt va c = screenPutstring (piecesText m (pieces percent s) args) c := by
  obtain ⟨c', hr, hw⟩ := fenced_walk s c hs h0 rfl hargs (by rw [hd]; exact hn)
  rw [hd, if_neg (by decide)] at hw
  obtain ⟨rest, hplain, -⟩ := (plain_serves m (fmt + s.length)).walk hva hw
  rw [kprintfv_plainInput, bind_of_ok hplain, hr]
  rfl

/-- A text without directives prints itself, which is all that `kprintf` models. -/
theorem kprintfv_plain (args : VaList) (c : Console) (hm : StringAt m fmt s)
    (h0 : (0 : BitVec 8) ∉ s)
    (hp : percent ∉ s) : kprintfv m (n + 1 + s.length) fmt args c = screenPutstring s c := by
  have hpieces := pieces_append [] hp
  rw [List.append_nil, pieces_nil, List.append_nil] at hpieces
  have hd : dangling percent s = false := by
    have := dangling_append [] hp
    rwa [List.append_nil] at this
  have hcount : argCount s = 0 := by
    have := argCount_append hp []
    rwa [List.append_nil] at this
  have hlen : (pieces percent s).length < n + 1 + s.length := by
    rw [hpieces, List.length_map]
    omega
  have htext := piecesText_lits m [] [] s
  rw [List.append_nil, ← hpieces, piecesText, List.append_nil] at htext
  have hva : args.Holds [] := fun _ hi => absurd hi (Nat.not_lt_zero _)
  rw [kprintfv_text hm h0 hd hva hcount.symm hlen, htext]

/-- A `%` without a letter at the end leads out of the format. -/
theorem StaysInside.not_dangling (hs : StringAt m fmt s) (h0 : 0 ∉ s)
    (hargs : args.length = argCount s)
    (h : StaysInside m fmt s args) : dangling percent s = false := by
  obtain ⟨c', hr, -, -⟩ := h .blank (s.length + 1) (Nat.lt_succ_self _)
  obtain ⟨c'', -, hw⟩ := fenced_walk s .blank hs h0 rfl hargs
    (Nat.lt_succ_of_le (pieces_length_le s))
  by_contra hd
  rw [hr, if_pos (by simpa using hd)] at hw
  cases hw

/-- **When `kprintfv` stays inside its format**: for every format and the arguments it takes,
exactly when the format does not end with a `%` that has no letter, that is when it ends
with an even number of `%`. -/
theorem kprintfv_inside (hs : StringAt m fmt s) (h0 : 0 ∉ s) (hargs : args.length = argCount s) :
    StaysInside m fmt s args ↔ trailing percent s % 2 = 0 := by
  have hodd := dangling_iff (e := percent) s
  constructor
  · intro h
    have hne : trailing percent s % 2 ≠ 1 := by
      rw [ne_eq, ← hodd, h.not_dangling hs h0 hargs]
      decide
    omega
  · intro heven c n hn
    have hd : dangling percent s = false := by
      rw [← Bool.not_eq_true, hodd]
      omega
    have hlen := Nat.lt_of_le_of_lt (pieces_length_le (e := percent) s) hn
    obtain ⟨c', hr, hw⟩ := fenced_walk s c hs h0 rfl hargs hlen
    rw [hd, if_neg (by decide)] at hw
    rw [hd] at hlen
    exact ⟨c', hw, hr, fun va hva => (kprintfv_text hs h0 hd hva hargs hlen c).trans hr⟩

end Inside

/-- A number and a percent sign. -/
theorem kprintfv_inside_percent : ∃ m, StringAt m 0 (bytesOf "%d%%") ∧
    StaysInside m 0 (bytesOf "%d%%") [42] :=
  ⟨_, stringAt_getD _, (kprintfv_inside (stringAt_getD _) (by decide) (by decide)).mpr (by decide)⟩

/-- Of `"%"` with an `x` behind its NUL, the `x` is printed. -/
theorem kprintfv_passes_nul : ∃ m, StringAt m 0 (bytesOf "%") ∧
    (∀ va c, kprintfv m 4 0 va c = screenPutstring (bytesOf "x") c) ∧
    ¬ StaysInside m 0 (bytesOf "%") [] := by
  have hs : StringAt (fun i => ([37, 0, 120] : List (BitVec 8)).getD i 0) 0 (bytesOf "%") := by
    refine ⟨fun i hi => ?_, rfl⟩
    obtain rfl : i = 0 := Nat.lt_one_iff.mp hi
    rfl
  exact ⟨_, hs, fun va c => rfl, fun h => absurd (h.not_dangling hs (by decide) rfl) (by decide)⟩

end Kfs
