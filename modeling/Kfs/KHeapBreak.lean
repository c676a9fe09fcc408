import Kfs.KHeapUsed

/-!
# The kernel break

`kbrk` sets `heap_used` to the distance of its argument from the heap's base,
after a check against the heap's bounds; `kmalloc` and `kfree` add to it and
subtract from it without one. `kbrk(0)` stays inside the heap all along a run
exactly when every `kmalloc` finds the break at least a block below the heap's
end and every `kfree` finds it at least the freed block above the base
(`kernel_break`).
-/

namespace Kfs

open Kfs.Lib

/-- What a client of the heap and of its break can do. -/
inductive BreakOp where
  | heap (op : HeapOp)
  | kbrk (a : Nat)

def BreakStep (x : HeapSys) : BreakOp → HeapSys → Prop
  | .heap op, y => HeapStep x op y
  | .kbrk a, y => a < 2 ^ 32 ∧ (∃ r, kbrk a x.st = .ok r y.st) ∧ y.live = x.live

/-- **The break of a state**: `kbrk(0)` returns an address between the heap's base and
its end, with no wrap-around, and a `kbrk` that returns `-1` changes nothing. -/
structure BreakOk (s : State Flat) : Prop where
  inside : ∃ brk, kbrk 0 s = .ok brk s ∧ brk = s.kheap.heapBase + s.kheap.heapUsed ∧
    s.kheap.heapBase ≤ brk ∧ brk ≤ s.kheap.heapBase + s.kheap.heapSize
  rejected : ∀ a, a < 2 ^ 32 → ∀ s', kbrk a s = .ok 0xFFFFFFFF s' → s' = s

/-- **The condition on a step**: a `kmalloc` leaves the break below the heap's end, a
`kfree` above its base. -/
def BreakRoom (x : HeapSys) : BreakOp → Prop
  | .heap (.kmalloc n) =>
    n = 0 ∨ x.st.kheap.heapUsed + (round8 n + headerSize) ≤ x.st.kheap.heapSize
  | .heap (.kfree p) => x.sizeOf p + headerSize ≤ x.st.kheap.heapUsed
  | _ => True

/-! ## `kbrk` -/

def State.withUsed (s : State Flat) (u : Nat) : State Flat :=
  { s with kheap := { s.kheap with heapUsed := u } }

theorem HeapInv.withUsed {s : State Flat} {bs : List Blk} (h : HeapInv s bs) (u : Nat) :
    HeapInv (s.withUsed u) bs :=
  ⟨h.base, h.size, h.start, h.list, h.tiled, h.align, h.coalesced⟩

section Kbrk

variable {s : State Flat} {bs : List Blk} (h : HeapInv s bs)
include h

theorem HeapInv.kbrk_zero : kbrk 0 s = .ok (add32 kheapStart s.kheap.heapUsed) s := by
  unfold Kfs.kbrk
  rw [get_bind_apply, if_pos rfl, h.base]
  rfl

/-- **`kbrk` of an address** sets the break inside the heap, and refuses it outside. -/
theorem HeapInv.kbrk {a : Nat} (ha : a ≠ 0) :
    (kheapStart ≤ a ∧ a ≤ kheapLimit ∧ kbrk a s = .ok a (s.withUsed (a - kheapStart))) ∨
    (¬ (kheapStart ≤ a ∧ a ≤ kheapLimit) ∧ kbrk a s = .ok 0xFFFFFFFF s) := by
  have hend : add32 s.kheap.heapBase s.kheap.heapSize = kheapLimit := by
    rw [h.base, h.size]
    decide
  unfold Kfs.kbrk
  rw [get_bind_apply, if_neg ha, hend, h.base]
  by_cases hin : kheapStart ≤ a ∧ a ≤ kheapLimit
  · have hsub : sub32 a kheapStart = a - kheapStart := by
      simp only [kheapLimit, kheapStart, kheapSize, kheapEnd] at hin
      exact sub32_eq hin.1 (by omega)
    refine .inl ⟨hin.1, hin.2, ?_⟩
    rw [if_neg (by simp only [Bool.or_eq_true, decide_eq_true_eq]; omega), hsub]
    rfl
  · refine .inr ⟨hin, ?_⟩
    rw [if_pos (by simp only [Bool.or_eq_true, decide_eq_true_eq]; omega)]
    rfl

theorem HeapInv.kbrk_rejected {a : Nat} {s' : State Flat} (hr : Kfs.kbrk a s = .ok 0xFFFFFFFF s') :
    s' = s := by
  by_cases ha : a = 0
  · subst ha
    rw [h.kbrk_zero] at hr
    injection hr with _ hs
    exact hs.symm
  · rcases h.kbrk ha with ⟨-, hhi, he⟩ | ⟨-, he⟩
    · rw [he] at hr
      injection hr with hv _
      simp only [kheapLimit, kheapStart, kheapSize, kheapEnd] at hhi
      omega
    · rw [he] at hr
      injection hr with _ hs
      exact hs.symm

/-- The break is right exactly when `heap_used` is at most the heap's size. -/
theorem HeapInv.breakOk_iff : BreakOk s ↔ s.kheap.heapUsed ≤ kheapSize := by
  constructor
  · rintro ⟨⟨brk, -, heq, -, hhi⟩, -⟩
    rw [h.size] at hhi
    omega
  · intro hle
    refine ⟨⟨_, h.kbrk_zero, ?_, ?_, ?_⟩, fun a _ s' hr => h.kbrk_rejected hr⟩ <;>
      rw [h.base] <;> try rw [h.size]
    all_goals
      simp only [add32, kheapStart, kheapSize, kheapEnd] at *
      omega

end Kbrk

/-! ## Runs -/

theorem BreakStep.kbrk_ok {x y : HeapSys} {bs : List Blk} {a : Nat} (h : HeapInv x.st bs)
    (hl : LiveOf x.live bs) (hle : x.st.kheap.heapUsed ≤ kheapSize)
    (hs : BreakStep x (.kbrk a) y) : HeapInv y.st bs ∧ LiveOf y.live bs ∧
      y.st.kheap.heapUsed ≤ kheapSize := by
  obtain ⟨-, ⟨r, hr⟩, hlive⟩ := hs
  rw [hlive]
  have hsame : y.st = x.st ∨ ∃ u, u ≤ kheapSize ∧ y.st = x.st.withUsed u := by
    by_cases ha : a = 0
    · subst ha
      rw [h.kbrk_zero] at hr
      injection hr with _ hst
      exact .inl hst.symm
    · rcases h.kbrk ha with ⟨hlo, hhi, he⟩ | ⟨-, he⟩ <;> rw [he] at hr <;> injection hr with _ hst
      · refine .inr ⟨a - kheapStart, ?_, hst.symm⟩
        simp only [kheapLimit] at hhi
        omega
      · exact .inl hst.symm
  rcases hsame with hst | ⟨u, hu, hst⟩ <;> rw [hst]
  · exact ⟨h, hl, hle⟩
  · exact ⟨h.withUsed u, hl, hu⟩

/-- **One step**: from a good break, the next is good exactly when the step had room. -/
theorem BreakStep.breakOk {x y : HeapSys} {op : BreakOp} (h : HeapOk x) (hok : BreakOk x.st)
    (hs : BreakStep x op y) : HeapOk y ∧ (BreakOk y.st ↔ BreakRoom x op) := by
  obtain ⟨bs, hinv, hl⟩ := h
  have hle := hinv.breakOk_iff.mp hok
  cases op with
  | kbrk a =>
    obtain ⟨hinv', hl', hle'⟩ := hs.kbrk_ok hinv hl hle
    exact ⟨⟨bs, hinv', hl'⟩, iff_of_true (hinv'.breakOk_iff.mpr hle') trivial⟩
  | heap op =>
    obtain ⟨bs', he, hinv', hl'⟩ := heapStep_edit hinv hl hs
    refine ⟨⟨bs', hinv', hl'⟩, ?_⟩
    rw [hinv'.breakOk_iff]
    cases he with
    | nothing hst =>
      rw [hst]
      exact iff_of_true hle (.inl rfl)
    | @serve pre post b n hn hpre hb hused hsame =>
      have hbnd := hinv.bounds (b := b) (by simp)
      have hfit := hb.2
      have hsum : y.st.kheap.heapUsed = x.st.kheap.heapUsed + (round8 n + 16) := by
        simp only [kheapSize, kheapEnd, kheapStart] at hle
        rw [hused, add32_eq (b := 16) (by omega), add32_eq (by omega)]
      simp only [BreakRoom, hn, false_or, hinv.size, headerSize, hsum]
    | @release pre post b hbf hused hsame =>
      have hbnd := hinv.bounds (b := b) (by simp)
      have hsize : x.sizeOf (b.addr + 16) = b.size := hinv.header_size (by simp)
      simp only [BreakRoom, hsize, headerSize]
      rw [hused]
      -- below the base the difference wraps to the top of the address space
      simp only [kheapSize, kheapEnd, kheapStart, sub32] at *
      omega
    | write hb hbf h1 h2 hst =>
      rw [hst]
      exact iff_of_true hle trivial

/-- **The kernel break.** In every run of `kmalloc`, `kfree` of live pointers, client writes
and `kbrk` of any address from `kheap_init`, the break is inside the heap in every
state if and only if every step of the run had room for its change of the break. -/
theorem kernel_break {x : HeapSys} {tr : List (BreakOp × HeapSys)} (hx : HeapStart x)
    (ht : Trace BreakStep x tr) :
    (BreakOk x.st ∧ ∀ p ∈ tr, BreakOk p.2.st) ↔ Meets BreakRoom x tr := by
  obtain ⟨hinv, hl, hused⟩ := hx.inv
  have hstart : BreakOk x.st := hinv.breakOk_iff.mpr (by rw [hused]; exact Nat.zero_le _)
  rw [and_iff_right hstart]
  exact Trace.states_iff_meets (I := HeapOk) (P := fun x => BreakOk x.st)
    (fun _ _ _ h hok hs => BreakStep.breakOk h hok hs) ⟨_, hinv, hl⟩ hstart ht

theorem kbrk_kmalloc_boot {a : Nat} (hlo : kheapStart ≤ a) (hhi : a ≤ kheapLimit) :
    ∃ s s', HeapStart ⟨s, ∅⟩ ∧ HeapInv s [wholeHeap] ∧
      Trace BreakStep ⟨s, ∅⟩ [(.kbrk a, ⟨s.withUsed (a - kheapStart), ∅⟩),
        (.heap (.kmalloc 8), ⟨s', {0x200010}⟩)] ∧
      HeapInv s' [⟨0x200000, 8, false⟩, ⟨0x200018, 0xFFFD8, true⟩] ∧
      s'.kheap.heapUsed = a - kheapStart + 24 := by
  obtain ⟨s, hstart, hboot⟩ := heapStart_boot Image.readme Flat.blank
  have hinv : HeapInv s [wholeHeap] := hboot.heap
  have hend : a ≤ 0x300000 := hhi
  have hne : a ≠ 0 := by
    simp only [kheapStart] at hlo
    omega
  rcases hinv.kbrk hne with ⟨-, -, hk⟩ | ⟨hout, -⟩
  swap
  · exact absurd ⟨hlo, hhi⟩ hout
  obtain ⟨s', hk', hinv', hused, -⟩ := kmalloc_hit (n := 8)
    (show HeapInv (s.withUsed (a - kheapStart)) ([] ++ wholeHeap :: []) from hinv.withUsed _)
    (by decide) (by simp) (by decide)
  refine ⟨s, s', hstart, hinv, ⟨⟨by omega, ⟨_, hk⟩, rfl⟩, ⟨by decide, _, hk', rfl⟩, trivial⟩,
    hinv', ?_⟩
  rw [hused]
  show add32 (a - kheapStart) 24 = _
  exact add32_eq (by omega)

/-- A break set to the middle of the heap, and an allocation after it. -/
theorem kernel_break_middle : ∃ x y z, HeapStart x ∧
    Trace BreakStep x [(.kbrk 0x280000, y), (.heap (.kmalloc 8), z)] ∧ BreakOk z.st := by
  obtain ⟨s, s', hstart, hinv, hrun, -, -⟩ :=
    kbrk_kmalloc_boot (a := 0x280000) (by decide) (by decide)
  have hroom : Meets BreakRoom (⟨s, ∅⟩ : HeapSys) [(.kbrk 0x280000,
      ⟨s.withUsed (0x280000 - kheapStart), ∅⟩), (.heap (.kmalloc 8), ⟨s', {0x200010}⟩)] := by
    refine ⟨trivial, .inr ?_, trivial⟩
    show 0x280000 - kheapStart + (round8 8 + headerSize) ≤ (s.withUsed _).kheap.heapSize
    rw [(hinv.withUsed _).size]
    decide
  have hall := (kernel_break hstart hrun).mpr hroom
  exact ⟨_, _, _, hstart, hrun, hall.2 (.heap (.kmalloc 8), ⟨s', {0x200010}⟩) (by simp)⟩

/-- With the break at the heap's end, the next allocation pushes it out. -/
theorem kernel_break_leaves : ∃ x y z, HeapStart x ∧
    Trace BreakStep x [(.kbrk 0x300000, y), (.heap (.kmalloc 8), z)] ∧
    kbrk 0 z.st = .ok 0x300018 z.st ∧ ¬ BreakOk z.st := by
  obtain ⟨s, s', hstart, -, hrun, hinv, hused⟩ :=
    kbrk_kmalloc_boot (a := 0x300000) (by decide) (by decide)
  refine ⟨_, _, _, hstart, hrun, ?_, fun hok => ?_⟩
  · have hread := hinv.kbrk_zero
    rw [hused] at hread
    exact hread
  · have hle := hinv.breakOk_iff.mp hok
    rw [hused] at hle
    exact absurd hle (by decide)

end Kfs
