import Mathlib.Tactic.Common

/-!
# Running stateful code

C functions are programs of `EStateM ε σ`: they read and write a state `σ`,
return a value or stop with an error `ε`, and the state at an error is kept.
The lemmas here execute one statement at a time. `forUp`, `findUp` and
`iterate` are the loops: a counted loop, a counted search that stops at the
first hit, and a `while` with a bound on its rounds. Each has the rule its
proofs go by.
-/

namespace Kfs.Lib

open EStateM (Result)

variable {ε σ α β γ : Type}

/-! ## Single statements -/

theorem pure_apply (a : α) (s : σ) : (pure a : EStateM ε σ α) s = .ok a s := rfl

theorem modify_apply (f : σ → σ) (s : σ) :
    (modify f : EStateM ε σ PUnit) s = .ok ⟨⟩ (f s) := rfl

theorem bind_of_ok {x : EStateM ε σ α} {f : α → EStateM ε σ β} {s t : σ} {a : α}
    (h : x s = .ok a t) : (x >>= f) s = f a t := by
  simp only [bind, EStateM.bind, h]

theorem bind_of_error {x : EStateM ε σ α} {f : α → EStateM ε σ β} {s s' : σ} {e : ε}
    (h : x s = .error e s') : (x >>= f) s = .error e s' := by
  simp only [bind, EStateM.bind, h]

theorem bind_eq_ok {x : EStateM ε σ α} {f : α → EStateM ε σ β} {s s' : σ} {b : β} :
    (x >>= f) s = .ok b s' ↔ ∃ a t, x s = .ok a t ∧ f a t = .ok b s' := by
  constructor
  · intro h
    cases hx : x s with
    | ok a t => rw [bind_of_ok hx] at h; exact ⟨a, t, rfl, h⟩
    | error e t => rw [bind_of_error hx] at h; cases h
  · rintro ⟨a, t, hx, hf⟩
    rw [bind_of_ok hx, hf]

theorem get_bind_apply (f : σ → EStateM ε σ β) (s : σ) :
    ((get : EStateM ε σ σ) >>= f) s = f s s := rfl

theorem modify_bind_apply (g : σ → σ) (f : PUnit → EStateM ε σ β) (s : σ) :
    ((modify g : EStateM ε σ PUnit) >>= f) s = f ⟨⟩ (g s) := rfl

/-- `x && y`: `y` runs only if `x` gives `true`. -/
def andThen (x y : EStateM ε σ Bool) : EStateM ε σ Bool := do
  if ← x then y else return false

theorem andThen_pure {x y : EStateM ε σ Bool} {p q : Bool} {s : σ} (hx : x s = .ok p s)
    (hy : p = true → y s = .ok q s) : andThen x y s = .ok (p && q) s := by
  unfold andThen
  rw [bind_of_ok hx]
  cases p with
  | true => simpa using hy rfl
  | false => rfl

/-! ## Counted loops -/

/-- `for (i = lo; i < lo + n; i++) body(i)`. -/
def forUp (body : Nat → EStateM ε σ Unit) : Nat → Nat → EStateM ε σ Unit
  | _, 0 => pure ()
  | lo, n + 1 => do
    body lo
    forUp body (lo + 1) n

/-- If every round preserves `I` or stops for a reason `E`, so does the loop. -/
theorem forUp_outcome {f : Nat → EStateM ε σ Unit} (I : Nat → σ → Prop) {E : ε → Prop} :
    ∀ {l n : Nat} {s : σ}, I l s →
      (∀ i t, l ≤ i → i < l + n → I i t →
        (∃ t', f i t = .ok () t' ∧ I (i + 1) t') ∨ ∃ e t', f i t = .error e t' ∧ E e) →
      (∃ s', forUp f l n s = .ok () s' ∧ I (l + n) s') ∨ ∃ e s', forUp f l n s = .error e s' ∧ E e
  | l, 0, s, h0, _ => .inl ⟨s, rfl, h0⟩
  | l, n + 1, s, h0, hstep => by
    rcases hstep l s (by omega) (by omega) h0 with ⟨t, hb, ht⟩ | ⟨e, t, hb, he⟩
    · rw [forUp, bind_of_ok hb, ← Nat.add_assoc, Nat.add_right_comm]
      exact forUp_outcome I (l := l + 1) (n := n) ht fun i t h1 h2 =>
        hstep i t (by omega) (by omega)
    · exact .inr ⟨e, t, by rw [forUp, bind_of_error hb], he⟩

/-- What one round preserves and establishes, a loop of total rounds does. -/
theorem forUp_total {f : Nat → EStateM ε σ Unit} (I : Nat → σ → Prop) {l n : Nat} {s : σ}
    (h0 : I l s)
    (hstep : ∀ i t, l ≤ i → i < l + n → I i t → ∃ t', f i t = .ok () t' ∧ I (i + 1) t') :
    ∃ s', forUp f l n s = .ok () s' ∧ I (l + n) s' := by
  rcases forUp_outcome I (E := fun _ => False) h0
    fun i t h1 h2 hi => .inl (hstep i t h1 h2 hi) with h | ⟨_, _, -, h⟩
  · exact h
  · exact h.elim

/-- A loop stops at the first round that does. -/
theorem forUp_stops {f : Nat → EStateM ε σ Unit} (I : Nat → σ → Prop) {e : ε} {k : Nat} :
    ∀ {l n : Nat} {s : σ}, l ≤ k → k < l + n → I l s →
      (∀ i t, l ≤ i → i < k → I i t → ∃ t', f i t = .ok () t' ∧ I (i + 1) t') →
      (∀ t, I k t → ∃ t', f k t = .error e t') → ∃ s', forUp f l n s = .error e s'
  | l, 0, _, h1, h2, _, _, _ => by omega
  | l, n + 1, s, h1, h2, h0, hstep, hstop => by
    rcases Nat.eq_or_lt_of_le h1 with rfl | hlt
    · obtain ⟨t, hb⟩ := hstop s h0
      exact ⟨t, by rw [forUp, bind_of_error hb]⟩
    · obtain ⟨t, hb, ht⟩ := hstep l s (by omega) hlt h0
      rw [forUp, bind_of_ok hb]
      exact forUp_stops I (by omega) (by omega) ht (fun i u h3 h4 => hstep i u (by omega) h4) hstop

/-- What every round that returns preserves, a loop that returns does. -/
theorem forUp_inv {body : Nat → EStateM ε σ Unit} (I : Nat → σ → Prop) :
    ∀ {lo n : Nat} {s s' : σ}, forUp body lo n s = .ok () s' → I lo s →
      (∀ i t t', lo ≤ i → i < lo + n → I i t → body i t = .ok () t' → I (i + 1) t') →
      I (lo + n) s'
  | lo, 0, s, s', h, h0, _ => by cases h; exact h0
  | lo, n + 1, s, s', h, h0, hstep => by
    rw [forUp, bind_eq_ok] at h
    obtain ⟨_, t, hb, hr⟩ := h
    have := forUp_inv I hr (hstep lo s t (by omega) (by omega) h0 hb)
      fun i u u' h1 h2 => hstep i u u' (by omega) (by omega)
    rwa [← Nat.add_assoc, Nat.add_right_comm]

/-- The first `i` of `lo, …, lo + n - 1` that `p` accepts. -/
def findUp (p : Nat → EStateM ε σ Bool) : Nat → Nat → EStateM ε σ (Option Nat)
  | _, 0 => pure none
  | lo, n + 1 => do
    if ← p lo then return some lo
    findUp p (lo + 1) n

/-- A search with a pure test finds its least hit and changes nothing. -/
theorem findUp_pure {p : Nat → EStateM ε σ Bool} {q : Nat → Bool} {s : σ} :
    ∀ {l n : Nat}, (∀ i, l ≤ i → i < l + n → p i s = .ok (q i) s) →
      (∃ i, l ≤ i ∧ i < l + n ∧ q i = true ∧ (∀ j, l ≤ j → j < i → q j = false) ∧
        findUp p l n s = .ok (some i) s) ∨
      ((∀ j, l ≤ j → j < l + n → q j = false) ∧ findUp p l n s = .ok none s)
  | l, 0, _ => .inr ⟨fun j h1 h2 => by omega, rfl⟩
  | l, n + 1, hp => by
    have hl0 := hp l (by omega) (by omega)
    cases hq : q l with
    | true =>
      refine .inl ⟨l, by omega, by omega, hq, fun j h1 h2 => by omega, ?_⟩
      rw [findUp, bind_of_ok hl0, hq]
      rfl
    | false =>
      have hskip : findUp p l (n + 1) s = findUp p (l + 1) n s := by
        rw [findUp, bind_of_ok hl0, hq]
        rfl
      have hrest : ∀ j, l ≤ j → (j < l + 1 → q j = false) := by
        intro j h1 h2
        rw [show j = l by omega, hq]
      rcases findUp_pure (l := l + 1) (n := n) fun i h1 h2 => hp i (by omega) (by omega) with
        ⟨i, h1, h2, hi, hmin, hr⟩ | ⟨hall, hr⟩
      · refine .inl ⟨i, by omega, by omega, hi, fun j hj hji => ?_, hskip.trans hr⟩
        by_cases hjl : j < l + 1
        · exact hrest j hj hjl
        · exact hmin j (by omega) hji
      · refine .inr ⟨fun j hj hjn => ?_, hskip.trans hr⟩
        by_cases hjl : j < l + 1
        · exact hrest j hj hjl
        · exact hall j (by omega) (by omega)

/-! ## Bounded `while` loops -/

/-- Rounds of `step` until it gives a result, at most `n` of them. -/
def iterate (stop : ε) (step : α → EStateM ε σ (α ⊕ β)) : Nat → α → EStateM ε σ β
  | 0, _ => throw stop
  | n + 1, x => do
    match ← step x with
    | .inl y => iterate stop step n y
    | .inr b => return b

theorem iterate_next {stop : ε} {step : α → EStateM ε σ (α ⊕ β)} {n : Nat} {x y : α} {s s' : σ}
    (h : step x s = .ok (.inl y) s') :
    iterate stop step (n + 1) x s = iterate stop step n y s' := by
  rw [iterate, bind_of_ok h]

theorem iterate_done {stop : ε} {step : α → EStateM ε σ (α ⊕ β)} {n : Nat} {x : α} {b : β}
    {s s' : σ} (h : step x s = .ok (.inr b) s') :
    iterate stop step (n + 1) x s = .ok b s' := by
  rw [iterate, bind_of_ok h]
  rfl

theorem iterate_error {stop : ε} {step : α → EStateM ε σ (α ⊕ β)} {n : Nat} {x : α} {e : ε}
    {s s' : σ} (h : step x s = .error e s') :
    iterate stop step (n + 1) x s = .error e s' := by
  rw [iterate, bind_of_error h]

/-- What every round preserves holds when the loop returns. -/
theorem iterate_inv {stop : ε} {step : α → EStateM ε σ (α ⊕ β)} (I : α → σ → Prop)
    (Q : β → σ → Prop)
    (hnext : ∀ x s y s', I x s → step x s = .ok (.inl y) s' → I y s')
    (hdone : ∀ x s b s', I x s → step x s = .ok (.inr b) s' → Q b s') :
    ∀ {n : Nat} {x : α} {s s' : σ} {b : β}, iterate stop step n x s = .ok b s' → I x s → Q b s'
  | 0, _, _, _, _, h, _ => by cases h
  | n + 1, x, s, s', b, h, hI => by
    rw [iterate, bind_eq_ok] at h
    obtain ⟨r, t, hs, h⟩ := h
    cases r with
    | inl y => exact iterate_inv I Q hnext hdone h (hnext x s y t hI hs)
    | inr b' => cases h; exact hdone _ _ _ _ hI hs

/-! ## Frames

`Keeps R x`: whenever `x` returns, the states before and after are related by
`R`. For a preorder `R` this goes through every statement. -/

def Keeps (R : σ → σ → Prop) (x : EStateM ε σ α) : Prop := ∀ s a s', x s = .ok a s' → R s s'

/-- A reflexive and transitive relation on states. -/
structure Frame (R : σ → σ → Prop) : Prop where
  refl : ∀ s, R s s
  trans : ∀ {s t u}, R s t → R t u → R s u

variable {R : σ → σ → Prop}

theorem Keeps.pure (hR : Frame R) (a : α) : Keeps R (Pure.pure a : EStateM ε σ α) := by
  rintro s b s' h
  cases h
  exact hR.refl s

theorem Keeps.throw (e : ε) : Keeps R (MonadExcept.throw e : EStateM ε σ α) := by
  rintro s b s' h
  cases h

theorem Keeps.get (hR : Frame R) : Keeps R (MonadState.get : EStateM ε σ σ) := by
  rintro s b s' h
  cases h
  exact hR.refl s

theorem Keeps.modify {f : σ → σ} (h : ∀ s, R s (f s)) :
    Keeps R (modifyGet fun s => (⟨⟩, f s) : EStateM ε σ PUnit) := by
  rintro s b s' hs
  cases hs
  exact h s

theorem Keeps.bind (hR : Frame R) {x : EStateM ε σ α} {f : α → EStateM ε σ β} (hx : Keeps R x)
    (hf : ∀ a, Keeps R (f a)) : Keeps R (x >>= f) := by
  intro s b s' h
  obtain ⟨a, t, h1, h2⟩ := bind_eq_ok.mp h
  exact hR.trans (hx s a t h1) (hf a t b s' h2)

theorem Keeps.ite {c : Prop} [Decidable c] {x y : EStateM ε σ α} (hx : Keeps R x)
    (hy : Keeps R y) : Keeps R (if c then x else y) := by
  split
  · exact hx
  · exact hy

theorem Keeps.andThen (hR : Frame R) {x y : EStateM ε σ Bool} (hx : Keeps R x) (hy : Keeps R y) :
    Keeps R (andThen x y) := .bind hR hx fun _ => .ite hy (.pure hR _)

theorem Keeps.forUp (hR : Frame R) {f : Nat → EStateM ε σ Unit} (hf : ∀ i, Keeps R (f i))
    (lo n : Nat) : Keeps R (forUp f lo n) := by
  induction n generalizing lo with
  | zero => exact .pure hR ()
  | succ n ih => exact .bind hR (hf lo) fun _ => ih (lo + 1)

theorem Keeps.findUp (hR : Frame R) {p : Nat → EStateM ε σ Bool} (hp : ∀ i, Keeps R (p i))
    (lo n : Nat) : Keeps R (findUp p lo n) := by
  induction n generalizing lo with
  | zero => exact .pure hR none
  | succ n ih => exact .bind hR (hp lo) fun _ => .ite (.pure hR _) (ih (lo + 1))

theorem Keeps.iterate (hR : Frame R) {stop : ε} {step : α → EStateM ε σ (α ⊕ β)}
    (hs : ∀ x, Keeps R (step x)) (n : Nat) (x : α) : Keeps R (iterate stop step n x) := by
  induction n generalizing x with
  | zero => exact .throw stop
  | succ n ih =>
    refine .bind hR (hs x) fun r => ?_
    cases r with
    | inl y => exact ih y
    | inr b => exact .pure hR b

/-! ## Frames of total code

`Total R x`: from every state `x` returns, in a state related by `R`. -/

def Total (R : σ → σ → Prop) (x : EStateM ε σ α) : Prop := ∀ s, ∃ a s', x s = .ok a s' ∧ R s s'

theorem Total.pure (hR : Frame R) (a : α) : Total R (Pure.pure a : EStateM ε σ α) :=
  fun s => ⟨a, s, rfl, hR.refl s⟩

theorem Total.get (hR : Frame R) : Total R (MonadState.get : EStateM ε σ σ) :=
  fun s => ⟨s, s, rfl, hR.refl s⟩

theorem Total.modify {f : σ → σ} (h : ∀ s, R s (f s)) :
    Total R (modifyGet fun s => (⟨⟩, f s) : EStateM ε σ PUnit) :=
  fun s => ⟨⟨⟩, f s, rfl, h s⟩

theorem Total.bind (hR : Frame R) {x : EStateM ε σ α} {f : α → EStateM ε σ β} (hx : Total R x)
    (hf : ∀ a, Total R (f a)) : Total R (x >>= f) := by
  intro s
  obtain ⟨a, t, h1, hr1⟩ := hx s
  obtain ⟨b, u, h2, hr2⟩ := hf a t
  exact ⟨b, u, (bind_of_ok h1).trans h2, hR.trans hr1 hr2⟩

theorem Total.ite {c : Prop} [Decidable c] {x y : EStateM ε σ α} (hx : c → Total R x)
    (hy : ¬ c → Total R y) : Total R (if c then x else y) := by
  split
  · next hc => exact hx hc
  · next hc => exact hy hc

theorem Total.forUp (hR : Frame R) {f : Nat → EStateM ε σ Unit} (n : Nat) :
    ∀ {l : Nat}, (∀ i, l ≤ i → i < l + n → Total R (f i)) → Total R (forUp f l n) := by
  induction n with
  | zero => exact fun _ => .pure hR ()
  | succ n ih =>
    intro l hf
    exact .bind hR (hf l (by omega) (by omega)) fun _ =>
      ih fun i h1 h2 => hf i (by omega) (by omega)

/-- A loop of total rounds can only run out of rounds. -/
theorem iterate_stops {stop : ε} {step : α → EStateM ε σ (α ⊕ β)}
    (h : ∀ x, Total (fun _ _ => True) (step x)) :
    ∀ {n : Nat} {x : α} {s s' : σ} {e : ε}, iterate stop step n x s = .error e s' → e = stop
  | 0, _, _, _, _, hr => by
    cases hr
    rfl
  | n + 1, x, s, s', e, hr => by
    obtain ⟨r, t, hs, -⟩ := h x s
    rw [iterate, bind_of_ok hs] at hr
    cases r with
    | inl y => exact iterate_stops h hr
    | inr b => cases hr

end Kfs.Lib
