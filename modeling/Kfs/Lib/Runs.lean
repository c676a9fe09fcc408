import Mathlib.Tactic.Common

/-!
# Runs of a labelled step relation

`Reach init step s`: `s` is reached from an initial state. `Trace step s tr`:
`tr` lists the labels and the states of a run from `s`. `Meets cond s tr`: every
step of the run meets a condition on the state before it and its label.
-/

namespace Kfs.Lib

variable {σ ι : Type}

inductive Reach (init : σ → Prop) (step : σ → ι → σ → Prop) : σ → Prop where
  | init {s : σ} : init s → Reach init step s
  | step {s s' : σ} {i : ι} : Reach init step s → step s i s' → Reach init step s'

/-- **Invariant rule.** What holds initially and is preserved by every step holds
in every reachable state. -/
theorem Reach.inv {init : σ → Prop} {step : σ → ι → σ → Prop} {I : σ → Prop}
    (h0 : ∀ s, init s → I s) (hstep : ∀ s i s', I s → step s i s' → I s') {s : σ}
    (h : Reach init step s) : I s := by
  induction h with
  | init hs => exact h0 _ hs
  | step _ hs ih => exact hstep _ _ _ ih hs

def Trace (step : σ → ι → σ → Prop) : σ → List (ι × σ) → Prop
  | _, [] => True
  | s, (i, t) :: tr => step s i t ∧ Trace step t tr

def Meets (cond : σ → ι → Prop) : σ → List (ι × σ) → Prop
  | _, [] => True
  | s, (i, t) :: tr => cond s i ∧ Meets cond t tr

def lastOf : σ → List (ι × σ) → σ
  | s, [] => s
  | _, (_, t) :: tr => lastOf t tr

theorem Trace.append {step : σ → ι → σ → Prop} :
    ∀ {s : σ} {tr tr' : List (ι × σ)}, Trace step s (tr ++ tr') ↔
      Trace step s tr ∧ Trace step (lastOf s tr) tr'
  | _, [], _ => by simp [Trace, lastOf]
  | s, (i, t) :: tr, tr' => by
    have ih := @Trace.append step t tr tr'
    simp only [List.cons_append, Trace, lastOf, ih, and_assoc]

/-- **Invariant rule for runs** whose steps all meet a condition. -/
theorem Trace.inv {step : σ → ι → σ → Prop} {c : σ → ι → Prop} {I : σ → Prop}
    (hstep : ∀ s i s', I s → c s i → step s i s' → I s') :
    ∀ {s : σ} {tr : List (ι × σ)}, Trace step s tr → Meets c s tr → I s → I (lastOf s tr)
  | _, [], _, _, h => h
  | s, (i, t) :: _, ht, hm, h =>
    Trace.inv (s := t) hstep ht.2 hm.2 (hstep s i t h hm.1 ht.1)

theorem Trace.inv_all {step : σ → ι → σ → Prop} {c : σ → ι → Prop} {I : σ → Prop}
    (hstep : ∀ s i s', I s → c s i → step s i s' → I s') :
    ∀ {s : σ} {tr : List (ι × σ)}, Trace step s tr → Meets c s tr → I s → ∀ p ∈ tr, I p.2
  | _, [], _, _, _ => by simp
  | s, (i, t) :: tr, ht, hm, h => by
    have hI := hstep s i t h hm.1 ht.1
    intro p hp
    rcases List.mem_cons.mp hp with rfl | hp
    · exact hI
    · exact Trace.inv_all (s := t) hstep ht.2 hm.2 hI p hp

/-- **Runs under a condition.** If from a good state a step does what it should exactly
when it meets the condition, and then ends in a good state, a run does what it
should at every step exactly when all its steps meet the condition. -/
theorem Trace.iff_meets {step G : σ → ι → σ → Prop} {c : σ → ι → Prop} {I : σ → Prop}
    (hstep : ∀ s i s', I s → step s i s' → (G s i s' ↔ c s i))
    (hI : ∀ s i s', I s → step s i s' → c s i → I s') :
    ∀ {s : σ} {tr : List (ι × σ)}, I s → Trace step s tr → (Trace G s tr ↔ Meets c s tr)
  | _, [], _, _ => by simp [Trace, Meets]
  | s, (i, t) :: tr, hs, ht => by
    have hhead := hstep s i t hs ht.1
    constructor
    · intro h
      have hc := hhead.mp h.1
      exact ⟨hc, (Trace.iff_meets hstep hI (hI s i t hs ht.1 hc) ht.2).mp h.2⟩
    · intro h
      exact ⟨hhead.mpr h.1, (Trace.iff_meets hstep hI (hI s i t hs ht.1 h.1) ht.2).mpr h.2⟩

theorem trace_states {P : σ → Prop} :
    ∀ {s : σ} {tr : List (ι × σ)}, Trace (fun _ _ t => P t) s tr ↔ ∀ p ∈ tr, P p.2
  | _, [] => by simp [Trace]
  | s, (i, t) :: tr => by
    simp only [Trace, List.mem_cons, forall_eq_or_imp, trace_states]

/-- The same for a property of states: if a step from a good state ends in a good one
exactly when it meets the condition, all states of a run are good exactly when all
its steps meet it. -/
theorem Trace.states_iff_meets {step : σ → ι → σ → Prop} {c : σ → ι → Prop} {I P : σ → Prop}
    (hstep : ∀ s i s', I s → P s → step s i s' → I s' ∧ (P s' ↔ c s i)) {s : σ}
    {tr : List (ι × σ)} (hI : I s) (hP : P s) (ht : Trace step s tr) :
    (∀ p ∈ tr, P p.2) ↔ Meets c s tr := by
  rw [← trace_states (s := s)]
  refine Trace.iff_meets (I := fun s => I s ∧ P s) (fun s i s' hs h => (hstep s i s' hs.1 hs.2 h).2)
    (fun s i s' hs h hc => ?_) ⟨hI, hP⟩ ht
  obtain ⟨hI', hiff⟩ := hstep s i s' hs.1 hs.2 h
  exact ⟨hI', hiff.mpr hc⟩

theorem Meets.of_forall {cond : σ → ι → Prop} :
    ∀ {s : σ} {tr : List (ι × σ)}, (∀ p ∈ tr, ∀ t, cond t p.1) → Meets cond s tr
  | _, [], _ => trivial
  | s, (i, t) :: _, h =>
    ⟨h (i, t) List.mem_cons_self s, Meets.of_forall fun p hp => h p (List.mem_cons_of_mem _ hp)⟩

end Kfs.Lib
