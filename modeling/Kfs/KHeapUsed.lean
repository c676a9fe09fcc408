import Kfs.KHeapRun
import Mathlib.Data.List.Find

/-!
# Accounting of the kernel heap

`kmalloc` adds the rounded request to `heap_used`, `kfree` subtracts the block's
recorded size. The two differ when first fit finds a block that is larger than
the request but too small for `split_block`. `heap_accounting` says that this
is the only way: `heap_used` is the sum over the allocated blocks all along a run
exactly when no `kmalloc` of the run is served by such a block.
-/

namespace Kfs

open Kfs.Lib

/-- The sum over the allocated blocks of their size and header. -/
def allocatedBytes (hs : List Header) : Nat :=
  ((hs.filter fun h => h.free = 0).map fun h => h.size + headerSize).sum

/-- `heap_used`, as `kheap_used_bytes` and `kbrk(0)` report it, is the sum over the
allocated blocks; it is `0` when nothing is live. -/
def Accounted (x : HeapSys) : Prop :=
  ∃ hs, Blocks x.st.mem.data x.st.kheap.freeList hs ∧
    kheapUsedBytes x.st = .ok (allocatedBytes hs) x.st ∧
    (∃ brk, kbrk 0 x.st = .ok brk x.st ∧ sub32 brk x.st.kheap.heapBase = allocatedBytes hs) ∧
    (x.live = ∅ → kheapUsedBytes x.st = .ok 0 x.st)

/-- A `kmalloc` is served by a block of exactly the rounded request, or by one large
enough for `split_block` to cut that much off. -/
def ServedExactly (x : HeapSys) : HeapOp → Prop
  | .kmalloc n => n ≠ 0 → ∀ hs, Blocks x.st.mem.data x.st.kheap.freeList hs →
      ∀ b, (hs.find? fun h => h.free ≠ 0 ∧ round8 n ≤ h.size) = some b →
        b.size = round8 n ∨ round8 n + headerSize + 16 ≤ b.size
  | _ => True

/-! ## Bytes in use of a block list -/

/-- The bytes the used blocks of `bs` take. -/
def usedBytes : List Blk → Nat
  | [] => 0
  | b :: bs => (if b.free then 0 else b.size + 16) + usedBytes bs

theorem usedBytes_append (xs ys : List Blk) :
    usedBytes (xs ++ ys) = usedBytes xs + usedBytes ys := by
  induction xs with
  | nil => simp [usedBytes]
  | cons b xs ih => simp only [List.cons_append, usedBytes, ih, Nat.add_assoc]

theorem usedBytes_coalesceFrom (b : Blk) (bs : List Blk) :
    usedBytes (coalesceFrom 16 b bs) = usedBytes (b :: bs) := by
  induction bs generalizing b with
  | nil => rfl
  | cons c cs ih =>
    unfold coalesceFrom
    split
    · next hbc =>
      simp only [Bool.and_eq_true] at hbc
      rw [ih]
      simp only [usedBytes, Blk.join, hbc.1, hbc.2, ↓reduceIte, Nat.zero_add]
    · rw [usedBytes, ih]
      rfl

theorem usedBytes_coalesce (bs : List Blk) : usedBytes (coalesce 16 bs) = usedBytes bs := by
  cases bs with
  | nil => rfl
  | cons b bs => exact usedBytes_coalesceFrom b bs

theorem usedBytes_serve (b : Blk) (r : Nat) :
    usedBytes (b.serve 16 16 r) = (if r + 32 ≤ b.size then r else b.size) + 16 := by
  unfold Blk.serve
  by_cases h : r + 32 ≤ b.size
  · rw [if_pos (by omega), if_pos h]
    simp [usedBytes]
  · rw [if_neg (by omega), if_neg h]
    simp [usedBytes]

theorem Tiled.usedBytes_le {a e : Nat} {bs : List Blk} (ht : Tiled 16 a bs e) :
    a + usedBytes bs ≤ e := by
  induction bs generalizing a with
  | nil => exact Nat.le_of_eq ht
  | cons b bs ih =>
    have := ih ht.2
    simp only [usedBytes]
    split <;> omega

theorem HeapInv.allocatedBytes {s : State Flat} {bs : List Blk} (h : HeapInv s bs) :
    allocatedBytes (headersOf s.mem.data bs) = usedBytes bs := by
  have hsum : ∀ cs : List Blk, (∀ b ∈ cs, b ∈ bs) →
      Kfs.allocatedBytes (headersOf s.mem.data cs) = usedBytes cs := by
    intro cs
    induction cs with
    | nil => exact fun _ => rfl
    | cons b cs ih =>
      intro hcs
      have hb := hcs b List.mem_cons_self
      have ih := ih fun c hc => hcs c (List.mem_cons_of_mem _ hc)
      have hsize := h.header_size hb
      have hfree := h.header_used hb
      unfold Kfs.allocatedBytes headersOf at *
      rw [List.map_cons, List.filter_cons]
      simp only [usedBytes, hfree, decide_eq_true_iff]
      cases hbf : b.free with
      | true =>
        simp only [Bool.true_eq_false, ↓reduceIte, Nat.zero_add]
        exact ih
      | false =>
        simp only [Bool.false_eq_true, ↓reduceIte, List.map_cons, List.sum_cons, hsize, headerSize]
        rw [← ih]
        rfl
  exact hsum bs fun _ hb => hb

theorem usedBytes_nothing_live {bs : List Blk} (hl : LiveOf ∅ bs) : usedBytes bs = 0 := by
  have hfree : ∀ b ∈ bs, b.free = true := by
    intro b hb
    cases hf : b.free with
    | true => rfl
    | false => exact absurd ((hl _).mpr ⟨b, hb, hf, rfl⟩) (Finset.notMem_empty _)
  clear hl
  induction bs with
  | nil => rfl
  | cons b bs ih =>
    rw [usedBytes, hfree b List.mem_cons_self, ih fun c hc => hfree c (List.mem_cons_of_mem _ hc)]
    rfl

/-! ## Steps -/

theorem Accounted.used {x : HeapSys} {bs : List Blk} (hacc : Accounted x) (h : HeapInv x.st bs) :
    x.st.kheap.heapUsed = usedBytes bs := by
  obtain ⟨hs, hblk, hused, -⟩ := hacc
  rw [h.blocks_eq hblk, h.allocatedBytes] at hused
  injection hused

theorem accounted_iff {x : HeapSys} {bs : List Blk} (h : HeapInv x.st bs) (hl : LiveOf x.live bs) :
    Accounted x ↔ x.st.kheap.heapUsed = usedBytes bs := by
  have hle := Tiled.usedBytes_le h.tiled
  simp only [kheapStart, kheapLimit, kheapSize, kheapEnd] at hle
  refine ⟨fun hacc => hacc.used h, fun hused => ?_⟩
  refine ⟨_, h.blocks, ?_, ⟨_, rfl, ?_⟩, fun hlive => ?_⟩
  · rw [h.allocatedBytes, ← hused]
    rfl
  · rw [h.allocatedBytes, hused, h.base]
    unfold add32 sub32
    simp only [kheapStart]
    omega
  · rw [hlive] at hl
    rw [usedBytes_nothing_live hl] at hused
    rw [← hused]
    rfl

theorem servedExactly_iff {x : HeapSys} {bs : List Blk} (h : HeapInv x.st bs)
    {n : Nat} (hn : n ≠ 0) :
    ServedExactly x (.kmalloc n) ↔ ∀ b, (bs.find? fun b => decide (b.Fits (round8 n))) = some b →
      b.size = round8 n ∨ round8 n + 32 ≤ b.size := by
  have hfind : (headersOf x.st.mem.data bs).find?
        (fun h => h.free ≠ 0 ∧ round8 n ≤ h.size) =
      (bs.find? fun b => decide (b.Fits (round8 n))).map fun b =>
        headerAt x.st.mem.data b.addr := by
    unfold headersOf
    rw [List.find?_map]
    congr 1
    refine List.find?_congr fun b hb => ?_
    rw [Function.comp_apply, decide_eq_decide, h.header_size hb, ne_eq, h.header_used hb,
      Bool.not_eq_false]
    rfl
  constructor
  · intro hx b hb
    have hmem := List.mem_of_find?_eq_some hb
    have := hx hn _ h.blocks (headerAt x.st.mem.data b.addr) (by rw [hfind, hb]; rfl)
    rw [h.header_size hmem] at this
    exact this
  · intro hx _ hs hblk c hc
    rw [h.blocks_eq hblk, hfind, Option.map_eq_some_iff] at hc
    obtain ⟨b, hb, rfl⟩ := hc
    rw [h.header_size (List.mem_of_find?_eq_some hb)]
    exact hx b hb

theorem find_first_fit {r : Nat} {pre post : List Blk} {b : Blk} (hpre : ∀ c ∈ pre, ¬ c.Fits r)
    (hb : b.Fits r) : ((pre ++ b :: post).find? fun c => decide (c.Fits r)) = some b := by
  rw [List.find?_eq_some_iff_append]
  exact ⟨decide_eq_true hb, pre, post, rfl, fun c hc => by simp [hpre c hc]⟩

/-- **One step**: from an accounted state, the next is accounted exactly when the
step was served exactly. -/
theorem heapStep_accounted {x y : HeapSys} {op : HeapOp} (h : HeapOk x) (hacc : Accounted x)
    (hs : HeapStep x op y) : Accounted y ↔ ServedExactly x op := by
  obtain ⟨bs, hinv, hl⟩ := h
  obtain ⟨bs', he, hinv', hl'⟩ := heapStep_edit hinv hl hs
  have hused := (accounted_iff hinv hl).mp hacc
  have hle := Tiled.usedBytes_le hinv.tiled
  simp only [kheapStart, kheapLimit, kheapSize, kheapEnd] at hle
  rw [accounted_iff hinv' hl']
  cases he with
  | nothing hst => simp [ServedExactly, hst, hused]
  | @serve pre post b n hn hpre hb hnew hsame =>
    have hbnd := hinv.bounds (b := b) (by simp)
    rw [servedExactly_iff hinv hn, find_first_fit hpre hb, hnew, hused]
    simp only [usedBytes_append, usedBytes_serve, usedBytes, hb.1, ↓reduceIte] at hle ⊢
    have hr := hb.2
    simp only [Option.some.injEq, forall_eq', add32]
    split <;> omega
  | @release pre post b hbf hnew hsame =>
    rw [hnew, hused, usedBytes_coalesce]
    simp only [usedBytes_append, usedBytes, hbf, Blk.release, Bool.false_eq_true,
      ↓reduceIte] at hle ⊢
    rw [sub32_eq (by omega) (by omega)]
    simp only [ServedExactly, iff_true]
    omega
  | write hb hbf h1 h2 hst => simp [ServedExactly, hst, State.setData, hused]

/-- **Accounting of a run**: `heap_used` is the sum over the allocated blocks in every
state of a run exactly when every `kmalloc` of the run was served exactly. -/
theorem heap_accounting {x : HeapSys} {tr : List (HeapOp × HeapSys)} (hx : HeapStart x)
    (ht : Trace HeapStep x tr) :
    (Accounted x ∧ ∀ p ∈ tr, Accounted p.2) ↔ Meets ServedExactly x tr := by
  obtain ⟨hinv, hl, hused⟩ := hx.inv
  have hacc : Accounted x := (accounted_iff hinv hl).mpr hused
  rw [and_iff_right hacc]
  exact Trace.states_iff_meets (I := HeapOk)
    (fun x op y h hacc hs => ⟨hs.ok h, heapStep_accounted h hacc hs⟩) ⟨_, hinv, hl⟩ hacc ht

/-- A first allocation after start-up is accounted for. -/
theorem heap_accounting_kmalloc :
    ∃ x y, HeapStart x ∧ HeapStep x (.kmalloc 20) y ∧ Accounted y := by
  obtain ⟨s, hstart, hboot⟩ := heapStart_boot Image.readme Flat.blank
  obtain ⟨s', hk, -⟩ := kmalloc_hit (n := 20)
    (show HeapInv s ([] ++ wholeHeap :: []) from hboot.heap) (by decide) (by simp) (by decide)
  have hstep : HeapStep ⟨s, ∅⟩ (.kmalloc 20) ⟨s', {0x200010}⟩ := ⟨by decide, _, hk, rfl⟩
  have hmeets : Meets ServedExactly ⟨s, ∅⟩ [(.kmalloc 20, ⟨s', {0x200010}⟩)] := by
    refine ⟨(servedExactly_iff hboot.heap (by decide)).mpr fun b hb => ?_, trivial⟩
    have hfirst : (([] ++ wholeHeap :: []).find? fun c => decide (c.Fits (round8 20))) =
        some wholeHeap := find_first_fit (by simp) (by decide)
    injection hfirst.symm.trans hb with hb
    subst hb
    decide
  have hrun : Trace HeapStep ⟨s, ∅⟩ [(.kmalloc 20, ⟨s', {0x200010}⟩)] := ⟨hstep, trivial⟩
  have hacc := (heap_accounting hstart hrun).mpr hmeets
  exact ⟨_, _, hstart, hstep, hacc.2 _ List.mem_cons_self⟩

/-- A block of 32 bytes, freed, serves a request of 8 whole: `heap_used` gains 24 bytes
and the block takes 48. -/
theorem heap_accounting_fails :
    ∃ x y₁ y₂ y₃ y₄, HeapStart x ∧
      Trace HeapStep x [(.kmalloc 32, y₁), (.kmalloc 8, y₂), (.kfree 0x200010, y₃),
        (.kmalloc 8, y₄)] ∧ ¬ Accounted y₄ := by
  obtain ⟨s, hstart, hboot⟩ := heapStart_boot Image.readme Flat.blank
  obtain ⟨s₁, hk₁, h₁, hu₁, -⟩ := kmalloc_hit (n := 32)
    (show HeapInv s ([] ++ wholeHeap :: []) from hboot.heap) (by decide) (by simp) (by decide)
  obtain ⟨s₂, hk₂, h₂, hu₂, -⟩ := kmalloc_hit (n := 8)
    (show HeapInv s₁ ([⟨0x200000, 32, false⟩] ++ ⟨0x200030, 0xFFFC0, true⟩ :: []) from h₁)
    (by decide) (by decide) (by decide)
  obtain ⟨s₃, hk₃, h₃, hu₃, -⟩ := kfree_spec
    (show HeapInv s₂ ([] ++ ⟨0x200000, 32, false⟩ ::
      [⟨0x200030, 8, false⟩, ⟨0x200048, 0xFFFA8, true⟩]) from h₂) rfl
  obtain ⟨s₄, hk₄, h₄, hu₄, -⟩ := kmalloc_hit (n := 8)
    (show HeapInv s₃ ([] ++ ⟨0x200000, 32, true⟩ ::
      [⟨0x200030, 8, false⟩, ⟨0x200048, 0xFFFA8, true⟩]) from h₃) (by decide) (by simp) (by decide)
  have herase : ({0x200040} : Finset Nat) = ({0x200040, 0x200010} : Finset Nat).erase 0x200010 := by
    decide
  have hrun : Trace HeapStep ⟨s, ∅⟩ [(.kmalloc 32, ⟨s₁, {0x200010}⟩),
      (.kmalloc 8, ⟨s₂, {0x200040, 0x200010}⟩), (.kfree 0x200010, ⟨s₃, {0x200040}⟩),
      (.kmalloc 8, ⟨s₄, {0x200010, 0x200040}⟩)] :=
    ⟨⟨by decide, _, hk₁, rfl⟩, ⟨by decide, _, hk₂, rfl⟩, ⟨by simp, hk₃, herase⟩,
      ⟨by decide, _, hk₄, rfl⟩, trivial⟩
  refine ⟨_, _, _, _, _, hstart, hrun, fun hacc => ?_⟩
  have hused := hacc.used (x := ⟨s₄, {0x200010, 0x200040}⟩) h₄
  rw [hu₄, hu₃, hu₂, hu₁, hboot.used] at hused
  exact absurd hused (by decide)

end Kfs
