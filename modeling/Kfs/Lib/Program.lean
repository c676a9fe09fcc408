import Kfs.Lib.Exec

/-!
# Programs over a set of operations

A `Program E α` is a tree: it asks for operations of `E`, one after the other, each
chosen from the answers so far, and returns an `α`. What an operation does is said
apart, by an `act`ion on some state, and one program may be run under several. Where
two actions agree on related states, all programs do (`Program.sim`).
-/

namespace Kfs.Lib

open EStateM (Result)

universe u

variable {ε σ τ α β : Type} {E : Type → Type u}

theorem bind_congr_at {x y : EStateM ε σ α} {f : α → EStateM ε σ β} {s s' : σ} (h : x s = y s') :
    (x >>= f) s = (y >>= f) s' := by
  simp only [Bind.bind, EStateM.bind, h]

/-! ## Code that agrees -/

/-- Both outcomes are a value, the same one, in states that `R` relates, or both an error, the
same one, in states that `Q` relates. -/
inductive Agree (R Q : σ → τ → Prop) : Result ε σ α → Result ε τ α → Prop where
  | ok {a : α} {s : σ} {t : τ} : R s t → Agree R Q (.ok a s) (.ok a t)
  | error {e : ε} {s : σ} {t : τ} : Q s t → Agree R Q (.error e s) (.error e t)

/-- From related states the two end alike. -/
def Sim (R Q : σ → τ → Prop) (x : EStateM ε σ α) (y : EStateM ε τ α) : Prop :=
  ∀ s t, R s t → Agree R Q (x s) (y t)

variable {R R' Q Q' : σ → τ → Prop}

theorem Agree.of_ok {x : Result ε σ α} {y : Result ε τ α} {a : α} {s : σ} {t : τ} (hx : x = .ok a s)
    (hy : y = .ok a t) (h : R s t) : Agree R Q x y := by
  rw [hx, hy]
  exact .ok h

theorem Agree.of_error {x : Result ε σ α} {y : Result ε τ α} {e : ε} {s : σ} {t : τ}
    (hx : x = .error e s) (hy : y = .error e t) (h : Q s t) : Agree R Q x y := by
  rw [hx, hy]
  exact .error h

/-- How two outcomes that agree look. -/
theorem Agree.inv {x : Result ε σ α} {y : Result ε τ α} (h : Agree R Q x y) :
    (∃ a s t, x = .ok a s ∧ y = .ok a t ∧ R s t) ∨ ∃ e s t, x = .error e s ∧
    y = .error e t ∧ Q s t := by
  cases h with
  | ok hR => exact .inl ⟨_, _, _, rfl, rfl, hR⟩
  | error hQ => exact .inr ⟨_, _, _, rfl, rfl, hQ⟩

theorem Agree.ok_left {x : Result ε σ α} {y : Result ε τ α} {a : α} {s : σ} (h : Agree R Q x y)
    (hx : x = .ok a s) : ∃ t, y = .ok a t ∧ R s t := by
  subst hx
  cases h with
  | ok hR => exact ⟨_, rfl, hR⟩

theorem Agree.ok_right {x : Result ε σ α} {y : Result ε τ α} {a : α} {t : τ} (h : Agree R Q x y)
    (hy : y = .ok a t) : ∃ s, x = .ok a s ∧ R s t := by
  subst hy
  cases h with
  | ok hR => exact ⟨_, rfl, hR⟩

theorem Agree.error_right {x : Result ε σ α} {y : Result ε τ α} {e : ε} {t : τ} (h : Agree R Q x y)
    (hy : y = .error e t) : ∃ s, x = .error e s ∧ Q s t := by
  subst hy
  cases h with
  | error hQ => exact ⟨_, rfl, hQ⟩

theorem Agree.mono {x : Result ε σ α} {y : Result ε τ α} (h : Agree R Q x y)
    (hR : ∀ s t, R s t → R' s t) (hQ : ∀ s t, Q s t → Q' s t) : Agree R' Q' x y := by
  cases h with
  | ok h => exact .ok (hR _ _ h)
  | error h => exact .error (hQ _ _ h)

theorem Agree.trans {υ : Type} {S T : τ → υ → Prop} {x : Result ε σ α}
    {y : Result ε τ α} {z : Result ε υ α} (hxy : Agree R Q x y) (hyz : Agree S T y z) :
    Agree (fun s u => ∃ t, R s t ∧ S t u) (fun s u => ∃ t, Q s t ∧ T t u) x z := by
  cases hxy with
  | ok h => cases hyz with | ok h' => exact .ok ⟨_, h, h'⟩
  | error h => cases hyz with | error h' => exact .error ⟨_, h, h'⟩

/-- **Sequencing.** -/
theorem Agree.bind {x : EStateM ε σ α} {y : EStateM ε τ α} {f : α → EStateM ε σ β}
    {g : α → EStateM ε τ β} {s : σ} {t : τ} (hxy : Agree R Q (x s) (y t))
    (hfg : ∀ a s' t', R s' t' → Agree R' Q (f a s') (g a t')) :
    Agree R' Q ((x >>= f) s) ((y >>= g) t) := by
  obtain ⟨a, s', t', hx, hy, hst⟩ | ⟨e, s', t', hx, hy, hst⟩ := hxy.inv
  · rw [bind_of_ok hx, bind_of_ok hy]
    exact hfg a s' t' hst
  · rw [bind_of_error hx, bind_of_error hy]
    exact .error hst

/-- **A counted loop** whose rounds agree. -/
theorem Agree.forUp {f : Nat → EStateM ε σ Unit} {g : Nat → EStateM ε τ Unit} :
    ∀ {l n : Nat} {s : σ} {t : τ}, R s t →
      (∀ i s' t', l ≤ i → i < l + n → R s' t' → Agree R Q (f i s') (g i t')) →
      Agree R Q (Lib.forUp f l n s) (Lib.forUp g l n t)
  | _, 0, _, _, h, _ => .ok h
  | l, n + 1, _, _, h, hstep =>
    (hstep l _ _ (Nat.le_refl l) (by omega) h).bind fun _ _ _ h' =>
      Agree.forUp h' fun i s' t' h1 h2 => hstep i s' t' (by omega) (by omega)

section Sim

variable {x : EStateM ε σ α} {y : EStateM ε τ α}

theorem Sim.pure (a : α) : Sim R Q (Pure.pure a : EStateM ε σ α) (Pure.pure a) := fun _ _ h => .ok h

theorem Sim.throw {e : ε} (h : ∀ s t, R s t → Q s t) :
    Sim R Q (MonadExcept.throw e : EStateM ε σ α) (MonadExcept.throw e) :=
  fun s t hst => .error (h s t hst)

theorem Sim.bind {f : α → EStateM ε σ β} {g : α → EStateM ε τ β} (hx : Sim R Q x y)
    (hf : ∀ a, Sim R Q (f a) (g a)) : Sim R Q (x >>= f) (y >>= g) :=
  fun s t h => (hx s t h).bind fun a s' t' h' => hf a s' t' h'

theorem Sim.ite {c : Prop} [Decidable c] {x' : EStateM ε σ α}
    {y' : EStateM ε τ α} (hx : Sim R Q x y)
    (hy : Sim R Q x' y') : Sim R Q (if c then x else x') (if c then y else y') := by
  split
  · exact hx
  · exact hy

theorem Sim.forUp {f : Nat → EStateM ε σ Unit} {g : Nat → EStateM ε τ Unit}
    (h : ∀ i, Sim R Q (f i) (g i)) (l n : Nat) : Sim R Q (Lib.forUp f l n) (Lib.forUp g l n) :=
  fun _ _ hst => Agree.forUp hst fun i s' t' _ _ => h i s' t'

theorem Sim.findUp {f : Nat → EStateM ε σ Bool} {g : Nat → EStateM ε τ Bool}
    (h : ∀ i, Sim R Q (f i) (g i)) :
    ∀ l n : Nat, Sim R Q (Lib.findUp f l n) (Lib.findUp g l n)
  | _, 0 => .pure none
  | l, n + 1 => .bind (h l) fun _ => .ite (.pure _) (Sim.findUp h (l + 1) n)

end Sim

/-! ## Programs -/

inductive Program (E : Type → Type u) (α : Type) : Type (max 1 u) where
  | ret (a : α)
  | op {β : Type} (e : E β) (k : β → Program E α)

namespace Program

def bind : Program E α → (α → Program E β) → Program E β
  | .ret a, f => f a
  | .op e k, f => .op e fun b => (k b).bind f

instance : Monad (Program E) where
  pure := .ret
  bind := bind

/-- One operation, for its answer. -/
def single (e : E β) : Program E β := .op e .ret

def run (act : ∀ β, E β → EStateM ε σ β) : Program E α → EStateM ε σ α
  | .ret a => Pure.pure a
  | .op e k => act _ e >>= fun b => (k b).run act

variable (act : ∀ β, E β → EStateM ε σ β)

@[simp] theorem run_pure (a : α) : (Pure.pure a : Program E α).run act = Pure.pure a := rfl

@[simp] theorem run_single (e : E β) : (single e).run act = act β e := bind_pure (act β e)

@[simp] theorem run_bind (p : Program E α) (f : α → Program E β) :
    (p >>= f).run act = p.run act >>= fun a => (f a).run act := by
  induction p with
  | ret a => exact (pure_bind a fun a => (f a).run act).symm
  | op e k ih =>
    show (act _ e >>= fun b => ((k b).bind f).run act) = (act _ e >>= fun b => (k b).run act) >>= _
    rw [bind_assoc]
    exact congrArg (act _ e >>= ·) (funext ih)

@[simp] theorem run_ite {c : Prop} [Decidable c] (p q : Program E α) :
    (if c then p else q).run act = if c then p.run act else q.run act := by
  split <;> rfl

variable {act} {act' : ∀ β, E β → EStateM ε τ β}

/-- **Simulation.** If every operation ends alike under two actions, every program does. -/
theorem sim (h : ∀ β (e : E β), Sim R Q (act β e) (act' β e)) (p : Program E α) :
    Sim R Q (p.run act) (p.run act') := by
  induction p with
  | ret a => exact fun s t hR => .ok hR
  | op e k ih => exact fun s t hR => (h _ e s t hR).bind ih

/-! ### What a program may ask for -/

/-- On its run from `t` the program asks only for what `P` permits in the state that it asks in. -/
def Obeys (act : ∀ β, E β → EStateM ε τ β) (P : ∀ β, E β → τ → Prop) : Program E α → τ → Prop
  | .ret _, _ => True
  | .op e k, t => P _ e t ∧
    match act _ e t with
    | .ok b t' => (k b).Obeys act P t'
    | .error _ _ => True

instance decidableObeys (act : ∀ β, E β → EStateM ε τ β) (P : ∀ β, E β → τ → Prop)
    [∀ β (e : E β) t, Decidable (P β e t)] :
    ∀ (p : Program E α) (t : τ), Decidable (p.Obeys act P t)
  | .ret _, _ => .isTrue trivial
  | .op e k, t =>
    have : Decidable (match act _ e t with
        | .ok b t' => (k b).Obeys act P t'
        | .error _ _ => True) :=
      match act _ e t with
      | .ok b t' => decidableObeys act P (k b) t'
      | .error _ _ => .isTrue trivial
    decidable_of_iff (P _ e t ∧
      match act _ e t with
      | .ok b t' => (k b).Obeys act P t'
      | .error _ _ => True) (by rw [Obeys])

/-- **Simulation of programs that obey.** -/
theorem sim_obeys {P : ∀ β, E β → τ → Prop}
    (h : ∀ β (e : E β) s t, R s t → P β e t → Agree R Q (act β e s) (act' β e t))
    (p : Program E α) :
    ∀ {s : σ} {t : τ}, R s t → p.Obeys act' P t → Agree R Q (p.run act s) (p.run act' t) := by
  induction p with
  | ret a => exact fun hR _ => .ok hR
  | op e k ih =>
    intro s t hR ho
    rw [Obeys] at ho
    obtain ⟨he, hk⟩ := ho
    show Agree R Q ((act _ e >>= _) s) ((act' _ e >>= _) t)
    obtain ⟨b, s', t', hs, ht, hR'⟩ | ⟨err, s', t', hs, ht, hQ⟩ := (h _ e s t hR he).inv
    · rw [ht] at hk
      rw [bind_of_ok hs, bind_of_ok ht]
      exact ih b hR' hk
    · exact .of_error (bind_of_error hs) (bind_of_error ht) hQ

/-! ### What a program asks for -/

/-- Whatever the answers are, the program asks only for operations that meet `P`. -/
def All (P : ∀ β, E β → Prop) : Program E α → Prop
  | .ret _ => True
  | .op e k => P _ e ∧ ∀ b, (k b).All P

variable {P : ∀ β, E β → Prop}

@[simp] theorem all_pure (a : α) : (Pure.pure a : Program E α).All P := trivial

@[simp] theorem all_single (e : E β) : (single e).All P ↔ P β e := and_iff_left fun _ => trivial

@[simp] theorem all_single_bind (e : E β) (f : β → Program E α) :
    (single e >>= f).All P ↔ P β e ∧ ∀ b, (f b).All P := Iff.rfl

theorem All.bind {p : Program E α} {f : α → Program E β} (hp : p.All P) (hf : ∀ a, (f a).All P) :
    (p >>= f).All P := by
  induction p with
  | ret a => exact hf a
  | op e k ih => exact ⟨hp.1, fun b => ih b (hp.2 b)⟩

@[simp] theorem all_ite {c : Prop} [Decidable c] {p q : Program E α} :
    (if c then p else q).All P ↔ (c → p.All P) ∧ (¬ c → q.All P) := by
  split
  · next h => exact ⟨fun hp => ⟨fun _ => hp, fun hc => absurd h hc⟩, fun hpq => hpq.1 h⟩
  · next h => exact ⟨fun hq => ⟨fun hc => absurd hc h, fun _ => hq⟩, fun hpq => hpq.2 h⟩

/-- **What the operations keep** that a program asks for, the program keeps. -/
theorem keeps {F : σ → σ → Prop} (hF : Frame F) (h : ∀ β (e : E β), P β e → Keeps F (act β e))
    {p : Program E α} (hp : p.All P) : Keeps F (p.run act) := by
  induction p with
  | ret a => exact .pure hF a
  | op e k ih => exact .bind hF (h _ e hp.1) fun b => ih b (hp.2 b)

end Program

end Kfs.Lib
