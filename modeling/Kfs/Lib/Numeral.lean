import Mathlib.Data.Nat.Digits.Lemmas

/-!
# Numerals at the start of a string

A reader of numerals stops at the first character that is no digit: it reads the
longest prefix of digits (`LongestPrefix`), of which every string has exactly one.

The digits of a number at the lowest `k` places, in base `b`, make up the number
modulo `b ^ k` (`ofDigits_places`).
-/

namespace Kfs.Lib

section Longest

variable {α : Type} {p : α → Prop} {s u v : List α} {c : α}

/-- `u` is the longest prefix of `s` whose elements all have `p`. -/
structure LongestPrefix (p : α → Prop) (s u : List α) : Prop where
  pre : u <+: s
  all : ∀ c ∈ u, p c
  longest : ∀ v, v <+: s → (∀ c ∈ v, p c) → v.length ≤ u.length

theorem LongestPrefix.unique (h : LongestPrefix p s u) (h' : LongestPrefix p s v) : u = v := by
  have hlen : u.length = v.length :=
    Nat.le_antisymm (h'.longest u h.pre h.all) (h.longest v h'.pre h'.all)
  exact (List.prefix_of_prefix_length_le h.pre h'.pre (Nat.le_of_eq hlen)).eq_of_length hlen

theorem LongestPrefix.self (h : ∀ c ∈ s, p c) : LongestPrefix p s s :=
  ⟨List.prefix_refl s, h, fun _ hv _ => hv.length_le⟩

theorem LongestPrefix.stop (hc : ¬ p c) : LongestPrefix p (c :: s) [] := by
  refine ⟨List.nil_prefix, fun c h => absurd h List.not_mem_nil, fun v hv hall => ?_⟩
  rcases List.prefix_cons_iff.mp hv with rfl | ⟨w, rfl, -⟩
  · exact Nat.le_refl 0
  · exact absurd (hall c List.mem_cons_self) hc

theorem LongestPrefix.cons (hc : p c) (h : LongestPrefix p s u) :
    LongestPrefix p (c :: s) (c :: u) := by
  refine ⟨(List.prefix_cons_inj c).mpr h.pre, ?_, fun v hv hall => ?_⟩
  · intro d hd
    rcases List.mem_cons.mp hd with rfl | hd
    · exact hc
    · exact h.all d hd
  · rcases List.prefix_cons_iff.mp hv with rfl | ⟨w, rfl, hw⟩
    · exact Nat.zero_le _
    · exact Nat.succ_le_succ (h.longest w hw fun d hd => hall d (List.mem_cons_of_mem c hd))

theorem LongestPrefix.exists (p : α → Prop) : ∀ s : List α, ∃ u, LongestPrefix p s u
  | [] => ⟨[], .self fun _ h => absurd h List.not_mem_nil⟩
  | c :: s => by
    obtain ⟨u, hu⟩ := LongestPrefix.exists p s
    by_cases hc : p c
    · exact ⟨c :: u, hu.cons hc⟩
    · exact ⟨[], .stop hc⟩

end Longest

theorem ofDigits_places (b v : Nat) : ∀ k : Nat,
    Nat.ofDigits b ((List.range k).map fun i => v / b ^ i % b) = v % b ^ k
  | 0 => by simp [Nat.mod_one]
  | k + 1 => by
    rw [List.range_succ, List.map_append, Nat.ofDigits_append, ofDigits_places b v k,
      List.length_map, List.length_range, List.map_singleton, Nat.ofDigits_singleton,
      Nat.mod_pow_succ]

end Kfs.Lib
