import Kfs.Lib.Bytes

/-!
# Linked lists in memory

A node at `addr x` has a header of `hdr` bytes: its fields, which `holds`
describes, and a pointer word at offset `next`. `Seg N m p xs q` says that
following the pointers from `p` meets exactly the nodes `xs` and then `q`;
`q = 0` is a null-terminated list. A segment depends on the headers of its
nodes only (`Seg.frame`), so an edit of one node is an edit at one place of a
concatenation (`seg_append`).
-/

namespace Kfs.Lib

/-- How a list node lies in memory. -/
structure Node (α : Type) where
  addr : α → Nat
  hdr : Nat
  next : Nat
  holds : Mem → α → Prop
  next_hdr : next + 4 ≤ hdr
  local_hdr : ∀ {m m' : Mem} {x : α},
    (∀ a, addr x ≤ a → a < addr x + hdr → m' a = m a) → holds m x → holds m' x

variable {α : Type} {N : Node α} {m m' : Mem}

def Seg (N : Node α) (m : Mem) : Nat → List α → Nat → Prop
  | p, [], q => p = q
  | p, x :: xs, q => p = N.addr x ∧ p ≠ 0 ∧ N.holds m x ∧ Seg N m (load32 m (p + N.next)) xs q

theorem seg_append {p q : Nat} {xs ys : List α} :
    Seg N m p (xs ++ ys) q ↔ ∃ r, Seg N m p xs r ∧ Seg N m r ys q := by
  induction xs generalizing p with
  | nil => simp [Seg]
  | cons x xs ih =>
    simp only [List.cons_append, Seg, ih]
    constructor
    · rintro ⟨h1, h2, h3, r, h4, h5⟩
      exact ⟨r, ⟨h1, h2, h3, h4⟩, h5⟩
    · rintro ⟨r, ⟨h1, h2, h3, h4⟩, h5⟩
      exact ⟨h1, h2, h3, r, h4, h5⟩

theorem Seg.frame {q : Nat} : ∀ {p : Nat} {xs : List α}, Seg N m p xs q →
    (∀ x ∈ xs, ∀ a, N.addr x ≤ a → a < N.addr x + N.hdr → m' a = m a) → Seg N m' p xs q
  | _, [], h, _ => h
  | p, x :: xs, ⟨h1, h2, h3, h4⟩, hm => by
    have hx := hm x List.mem_cons_self
    have hnext : load32 m' (p + N.next) = load32 m (p + N.next) := by
      have := N.next_hdr
      exact load32_congr fun a ha hb => hx a (by omega) (by omega)
    refine ⟨h1, h2, N.local_hdr hx h3, ?_⟩
    rw [hnext]
    exact h4.frame fun y hy => hm y (List.mem_cons_of_mem _ hy)

theorem Seg.holds {p q : Nat} {xs : List α} (h : Seg N m p xs q) : ∀ x ∈ xs, N.holds m x := by
  induction xs generalizing p with
  | nil => simp
  | cons y ys ih =>
    intro x hx
    rcases List.mem_cons.mp hx with rfl | hx
    · exact h.2.2.1
    · exact ih h.2.2.2 x hx

/-- Following the words at offset `next` from `p` meets the addresses `as` and then null. -/
inductive Follows (m : Mem) (next : Nat) : Nat → List Nat → Prop where
  | nil : Follows m next 0 []
  | cons {p : Nat} {as : List Nat} : p ≠ 0 → Follows m next (load32 m (p + next)) as →
      Follows m next p (p :: as)

theorem Follows.unique {next p : Nat} {as bs : List Nat} (h : Follows m next p as)
    (h' : Follows m next p bs) : as = bs := by
  induction h generalizing bs with
  | nil =>
    cases h' with
    | nil => rfl
    | cons hp _ => exact absurd rfl hp
  | cons hp _ ih =>
    cases h' with
    | nil => exact absurd rfl hp
    | cons _ h' => rw [ih h']

theorem Follows.congr {next p : Nat} {as : List Nat} (h : Follows m next p as)
    (hm : ∀ a ∈ as, load32 m' (a + next) = load32 m (a + next)) : Follows m' next p as := by
  induction h with
  | nil => exact .nil
  | cons hp _ ih =>
    refine .cons hp ?_
    rw [hm _ List.mem_cons_self]
    exact ih fun a ha => hm a (List.mem_cons_of_mem _ ha)

theorem Follows.drop {next p : Nat} {xs ys : List Nat} (h : Follows m next p (xs ++ ys)) :
    ∃ q, Follows m next q ys := by
  induction xs generalizing p with
  | nil => exact ⟨p, h⟩
  | cons x xs ih =>
    cases h with
    | cons _ h => exact ih h

theorem Follows.nodup {next p : Nat} {as : List Nat} (h : Follows m next p as) : as.Nodup := by
  induction h with
  | nil => exact List.nodup_nil
  | @cons p as hp h ih =>
    refine List.nodup_cons.mpr ⟨fun hmem => ?_, ih⟩
    obtain ⟨xs, ys, rfl⟩ := List.append_of_mem hmem
    obtain ⟨q, hq⟩ := h.drop
    cases hq with
    | cons _ hq =>
      -- the same address would head two lists of different length
      have hlen := congrArg List.length ((Follows.cons hp h).unique (.cons hp hq))
      simp only [List.length_cons, List.length_append] at hlen
      omega

theorem Follows.snoc {next p e l : Nat} {pre : List Nat} (h : Follows m next p (pre ++ [l]))
    (he : e ≠ 0) (hkeep : ∀ a ∈ pre, load32 m' (a + next) = load32 m (a + next))
    (hl : load32 m' (l + next) = e) (hnew : load32 m' (e + next) = 0) :
    Follows m' next p (pre ++ [l] ++ [e]) := by
  have hend : Follows m' next e [e] := .cons he (hnew ▸ .nil)
  induction pre generalizing p with
  | nil =>
    cases h with
    | cons hp _ => exact .cons hp (hl ▸ hend)
  | cons x pre ih =>
    cases h with
    | cons hp h =>
      refine .cons hp ?_
      rw [hkeep x List.mem_cons_self]
      exact ih h fun a ha => hkeep a (List.mem_cons_of_mem _ ha)

theorem Seg.follows {p : Nat} {xs : List α} (h : Seg N m p xs 0) :
    Follows m N.next p (xs.map N.addr) := by
  induction xs generalizing p with
  | nil =>
    have : p = 0 := h
    rw [this]
    exact .nil
  | cons x xs ih =>
    obtain ⟨hp, hnull, -, hrest⟩ := h
    rw [List.map_cons, ← hp]
    exact .cons hnull (ih hrest)

/-- The first element with a property, if there is one: what a search along a list
ends with. -/
theorem first_such (p : α → Prop) [DecidablePred p] (xs : List α) :
    (∀ x ∈ xs, ¬ p x) ∨
      ∃ pre x post, xs = pre ++ x :: post ∧ (∀ y ∈ pre, ¬ p y) ∧ p x := by
  cases hf : xs.find? fun x => decide (p x) with
  | none => exact .inl (by simpa using hf)
  | some x =>
    obtain ⟨hx, pre, post, he, hpre⟩ := List.find?_eq_some_iff_append.mp hf
    exact .inr ⟨pre, x, post, he, by simpa using hpre, by simpa using hx⟩

end Kfs.Lib
