import Mathlib.Data.List.DropRight

/-!
# Strings with an escape character

In a string with an escape character `e` every `e` takes the next element along: the
string is read as pieces, single elements and escaped ones (`pieces`). The string is
`dangling` when its last `e` has no element to take. Whether it is shows at its end: an
odd number of `e` stands there (`dangling_iff`), wherever else it has some.
-/

namespace Kfs.Lib

variable {α : Type} [DecidableEq α] {e a : α} {s : List α}

/-- An element that stands for itself, or one after the escape character. -/
inductive Piece (α : Type) where
  | lit (a : α)
  | esc (a : α)
  deriving DecidableEq, Repr

/-- The pieces of a string; an escape character without a follower is none. -/
def pieces (e : α) : List α → List (Piece α)
  | [] => []
  | [a] => if a = e then [] else [.lit a]
  | a :: b :: s => if a = e then .esc b :: pieces e s else .lit a :: pieces e (b :: s)

/-- The last escape character has no follower. -/
def dangling (e : α) : List α → Bool
  | [] => false
  | [a] => a = e
  | a :: b :: s => if a = e then dangling e s else dangling e (b :: s)

/-- **Induction** over the pieces of a string. -/
theorem escape_induction {P : List α → Prop} (nil : P []) (alone : P [e])
    (esc : ∀ b s, P s → P (e :: b :: s)) (lit : ∀ a s, a ≠ e → P s → P (a :: s)) : ∀ s, P s
  | [] => nil
  | [a] => by
    by_cases ha : a = e
    · rw [ha]
      exact alone
    · exact lit a [] ha nil
  | a :: b :: s => by
    by_cases ha : a = e
    · rw [ha]
      exact esc b s (escape_induction nil alone esc lit s)
    · exact lit a (b :: s) ha (escape_induction nil alone esc lit (b :: s))

@[simp] theorem pieces_nil : pieces e [] = [] := rfl

@[simp] theorem pieces_alone : pieces e [e] = [] := if_pos rfl

@[simp] theorem pieces_esc (b : α) (s : List α) : pieces e (e :: b :: s) = .esc b :: pieces e s :=
  if_pos rfl

theorem pieces_lit (h : a ≠ e) : ∀ s, pieces e (a :: s) = .lit a :: pieces e s
  | [] => if_neg h
  | _ :: _ => if_neg h

/-- In front of a string, elements other than the escape character are pieces of their own. -/
theorem pieces_append (s : List α) : ∀ {u : List α}, e ∉ u →
    pieces e (u ++ s) = u.map .lit ++ pieces e s
  | [], _ => rfl
  | a :: u, h => by
    rw [List.mem_cons, not_or] at h
    rw [List.cons_append, pieces_lit (Ne.symm h.1), pieces_append s h.2]
    rfl

@[simp] theorem dangling_nil : dangling e [] = false := rfl

@[simp] theorem dangling_alone : dangling e [e] = true := decide_eq_true rfl

@[simp] theorem dangling_esc (b : α) (s : List α) : dangling e (e :: b :: s) = dangling e s :=
  if_pos rfl

theorem dangling_lit (h : a ≠ e) : ∀ s, dangling e (a :: s) = dangling e s
  | [] => decide_eq_false h
  | _ :: _ => if_neg h

theorem dangling_append (s : List α) : ∀ {u : List α}, e ∉ u → dangling e (u ++ s) = dangling e s
  | [], _ => rfl
  | a :: u, h => by
    rw [List.mem_cons, not_or] at h
    rw [List.cons_append, dangling_lit (Ne.symm h.1), dangling_append s h.2]

theorem pieces_length_le (s : List α) : (pieces e s).length + (dangling e s).toNat ≤ s.length := by
  induction s using escape_induction (e := e) with
  | nil => exact Nat.le_refl 0
  | alone => simp
  | esc b s ih =>
    rw [pieces_esc, dangling_esc]
    simp only [List.length_cons]
    omega
  | lit a s ha ih =>
    rw [pieces_lit ha, dangling_lit ha]
    simp only [List.length_cons]
    omega

/-- The number of escape characters that a string ends with. -/
def trailing (e : α) (s : List α) : Nat := (s.rtakeWhile (· = e)).length

theorem trailing_le (s : List α) : trailing e s ≤ s.length :=
  (List.rtakeWhile_suffix _ s).length_le

theorem trailing_cons (a : α) (s : List α) : trailing e (a :: s) =
    if trailing e s = s.length ∧ a = e then s.length + 1 else trailing e s := by
  unfold trailing List.rtakeWhile
  rw [List.reverse_cons, List.takeWhile_append]
  simp only [List.length_reverse]
  by_cases hall : (s.reverse.takeWhile (· = e)).length = s.length
  · by_cases ha : a = e
    · simp [hall, ha]
    · simp [hall, ha]
  · simp [hall]

/-- **A string dangles** exactly when it ends with an odd number of escape characters. -/
theorem dangling_iff (s : List α) : dangling e s = true ↔ trailing e s % 2 = 1 := by
  induction s using escape_induction (e := e) with
  | nil => simp [trailing]
  | alone => simp [trailing, List.rtakeWhile]
  | esc b s ih =>
    rw [dangling_esc, ih, trailing_cons, List.length_cons, trailing_cons b s]
    by_cases hb : trailing e s = s.length ∧ b = e
    · -- all of the rest are escape characters
      rw [if_pos hb, if_pos ⟨rfl, rfl⟩, hb.1]
      omega
    · have hle := trailing_le (e := e) s
      rw [if_neg hb, if_neg fun h => by omega]
  | lit a s ha ih =>
    rw [dangling_lit ha, ih, trailing_cons, if_neg fun h => ha h.2]

end Kfs.Lib
