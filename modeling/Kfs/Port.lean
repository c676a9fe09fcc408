import Kfs.Machine

/-!
# Plain memory behind a bus

A `Port` reads the memory behind one kind of pointer as a byte map and can
replace it. `Plain P m W` says that in memory `m` every word access inside the
region `W` is a plain load or store of that map, and stays one whatever is
written inside `W`. Code that keeps its accesses inside `W` is verified once,
for every bus: `Flat` is plain everywhere, the paging hardware is plain on what
it maps to itself.
-/

namespace Kfs

open Kfs.Lib

structure Port (M : Type) where
  loc : Nat → Loc
  get : M → Mem
  set : M → Mem → M
  get_set : ∀ m d, get (set m d) = d
  set_set : ∀ m d d', set (set m d) d' = set m d'
  set_get : ∀ m, set m (get m) = m

variable {M : Type}

/-- The memory a state shows at the port. -/
def Port.view (P : Port M) (s : State M) : Mem := P.get s.mem

def Port.put (P : Port M) (s : State M) (d : Mem) : State M := { s with mem := P.set s.mem d }

@[simp] theorem Port.view_put (P : Port M) (s : State M) (d : Mem) : P.view (P.put s d) = d :=
  P.get_set s.mem d

@[simp] theorem Port.put_put (P : Port M) (s : State M) (d d' : Mem) :
    P.put (P.put s d) d' = P.put s d' := by
  simp only [Port.put, P.set_set]

@[simp] theorem Port.put_view (P : Port M) (s : State M) : P.put s (P.view s) = s := by
  simp only [Port.put, Port.view, P.set_get]

section Plain

variable [Bus M]

/-- Word accesses inside `W` are plain loads and stores, and stay so. -/
def Plain (P : Port M) (m : M) (W : Nat → Prop) : Prop :=
  ∀ d, SameOff W (P.get m) d → ∀ a, (∀ x, a ≤ x → x < a + 4 → W x) →
    Bus.load (P.set m d) (P.loc a) = .ok (load32 d a) ∧
    ∀ v, Bus.store (P.set m d) (P.loc a) v = .ok (P.set m (store32 d a v))

variable {P : Port M} {s : State M} {W : Nat → Prop} {d : Mem} {a : Nat}

theorem Plain.load (h : Plain P s.mem W) (hd : SameOff W (P.view s) d)
    (ha : ∀ x, a ≤ x → x < a + 4 → W x) :
    loadAt (P.loc a) (P.put s d) = .ok (load32 d a) (P.put s d) := by
  unfold loadAt Port.put
  simp only [(h d hd a ha).1]

theorem Plain.store (h : Plain P s.mem W) (hd : SameOff W (P.view s) d)
    (ha : ∀ x, a ≤ x → x < a + 4 → W x) (v : Nat) :
    storeAt (P.loc a) v (P.put s d) = .ok () (P.put s (store32 d a v)) := by
  unfold storeAt Port.put
  simp only [(h d hd a ha).2 v]

theorem Plain.put (h : Plain P s.mem W) (hd : SameOff W (P.view s) d) :
    Plain P (P.put s d).mem W := by
  intro d' hd' a ha
  simp only [Port.put, P.get_set] at hd'
  simp only [Port.put, P.set_set]
  exact h d' (hd.trans hd') a ha

theorem Plain.mono {W' : Nat → Prop} {m : M} (h : Plain P m W) (hW : ∀ x, W' x → W x) :
    Plain P m W' :=
  fun d hd a ha => h d (hd.mono hW) a fun x h1 h2 => hW x (ha x h1 h2)

/-- A port of ordinary pointers. -/
def Port.IsData (P : Port M) : Prop := ∀ a, P.loc a = .data a

theorem Plain.ld (hP : P.IsData) (h : Plain P s.mem W) (hd : SameOff W (P.view s) d)
    (ha : a < 2 ^ 32) (hW : ∀ x, a ≤ x → x < a + 4 → W x) :
    ld a (P.put s d) = .ok (load32 d a) (P.put s d) := by
  unfold Kfs.ld
  rw [Nat.mod_eq_of_lt ha, ← hP]
  exact h.load hd hW

theorem Plain.st (hP : P.IsData) (h : Plain P s.mem W) (hd : SameOff W (P.view s) d)
    (ha : a < 2 ^ 32) (hW : ∀ x, a ≤ x → x < a + 4 → W x) (v : Nat) :
    st a v (P.put s d) = .ok () (P.put s (store32 d a v)) := by
  unfold Kfs.st
  rw [Nat.mod_eq_of_lt ha, ← hP]
  exact h.store hd hW v

theorem Plain.ld_view (hP : P.IsData) (h : Plain P s.mem W) (ha : a < 2 ^ 32)
    (hW : ∀ x, a ≤ x → x < a + 4 → W x) : Kfs.ld a s = .ok (load32 (P.view s) a) s := by
  have := h.ld hP (SameOff.refl W (P.view s)) ha hW
  rwa [P.put_view] at this

/-- **The loop that fills an array** of words at `a` with `g 0, g 1, …`. -/
theorem fill_spec (h : Plain P s.mem W) {n : Nat} (g : Nat → Nat) (hg : ∀ i, i < n → g i < 2 ^ 32)
    (ha : ∀ x, a ≤ x → x < a + 4 * n → W x) :
    ∃ d, forUp (fun i => storeAt (P.loc (a + 4 * i)) (g i)) 0 n s = .ok () (P.put s d) ∧
      (∀ j, j < n → load32 d (a + 4 * j) = g j) ∧
      SameOff (fun x => a ≤ x ∧ x < a + 4 * n) (P.view s) d := by
  have := forUp_total (f := fun i => storeAt (P.loc (a + 4 * i)) (g i))
    (fun i t => ∃ d, t = P.put s d ∧ (∀ j, j < i → load32 d (a + 4 * j) = g j) ∧
      SameOff (fun x => a ≤ x ∧ x < a + 4 * n) (P.view s) d)
    (l := 0) (n := n) (s := s)
    ⟨P.view s, (P.put_view s).symm, fun j hj => by omega, SameOff.refl _ _⟩ ?_
  · obtain ⟨_, hr, d, rfl, hd, hs⟩ := this
    exact ⟨d, hr, fun j hj => hd j (by omega), hs⟩
  · rintro i _ - hi ⟨d, rfl, hd, hs⟩
    have hW := hs.mono fun x hx => ha x hx.1 hx.2
    refine ⟨_, h.store hW (fun x h1 h2 => ha x (by omega) (by omega)) (g i), _, rfl,
      fun j hj => ?_, hs.store32 fun x h1 h2 => by omega⟩
    by_cases hji : j = i
    · rw [hji, load32_store32 (hg i (by omega))]
    · rw [load32_store32_ne (by omega), hd j (by omega)]

end Plain

/-! ## Memory addressed directly -/

def flatData : Port Flat where
  loc := .data
  get m := m.data
  set m d := { m with data := d }
  get_set _ _ := rfl
  set_set _ _ _ := rfl
  set_get _ := rfl

theorem flatData_isData : flatData.IsData := fun _ => rfl

def flatTable : Port Flat where
  loc := .table
  get m := m.table
  set m d := { m with table := d }
  get_set _ _ := rfl
  set_set _ _ _ := rfl
  set_get _ := rfl

theorem flatData_plain (m : Flat) (W : Nat → Prop) : Plain flatData m W :=
  fun _ _ _ _ => ⟨rfl, fun _ => rfl⟩

theorem flatTable_plain (m : Flat) (W : Nat → Prop) : Plain flatTable m W :=
  fun _ _ _ _ => ⟨rfl, fun _ => rfl⟩

end Kfs
