import Mathlib.Data.List.Chain
import Mathlib.Data.List.Pairwise

/-!
# Tilings of an address range by blocks

A block at `addr` is a header of `h` bytes and `size` bytes after it.
`Tiled h a bs e`: the blocks `bs` lie end to end from `a` to `e`. `coalesce`
merges every run of adjacent free blocks into one. A tiling without two
adjacent free blocks is determined by its used blocks (`tiled_determined`), so
however an allocator got there, its list is the same.
-/

namespace Kfs.Lib

/-! ## Members of a pairwise related list -/

theorem pairwise_mem {α : Type} {R : α → α → Prop} {xs : List α} {b c : α} (h : xs.Pairwise R)
    (hb : b ∈ xs) (hc : c ∈ xs) : b = c ∨ R b c ∨ R c b := by
  by_cases hbc : b = c
  · exact .inl hbc
  · have hor : xs.Pairwise fun x y => R x y ∨ R y x := h.imp .inl
    have : Std.Symm fun x y => R x y ∨ R y x := ⟨fun _ _ => Or.symm⟩
    exact .inr (hor.forall hb hc hbc)

theorem pairwise_split {α : Type} {R : α → α → Prop} {xs ys : List α} {b c : α}
    (h : (xs ++ b :: ys).Pairwise R) (hc : c ∈ xs ++ ys) : R c b ∨ R b c := by
  rw [List.pairwise_append, List.pairwise_cons] at h
  rcases List.mem_append.mp hc with hc | hc
  · exact .inl (h.2.2 c hc b List.mem_cons_self)
  · exact .inr (h.2.1.1 c hc)

theorem mem_replaced {α : Type} {xs ys : List α} {b c : α} (zs : List α) (hc : c ∈ xs ++ b :: ys)
    (hne : c ≠ b) : c ∈ xs ++ zs ++ ys := by
  simp only [List.mem_append, List.mem_cons] at hc ⊢
  rcases hc with hc | hc | hc
  · exact .inl (.inl hc)
  · exact absurd hc hne
  · exact .inr hc

theorem mem_replaced_one {α : Type} {xs ys : List α} {b c : α} (b' : α) (hc : c ∈ xs ++ b :: ys)
    (hne : c ≠ b) : c ∈ xs ++ b' :: ys := by
  have := mem_replaced [b'] hc hne
  rwa [List.append_assoc] at this

/-! ## What frees leave of a list -/

section Since

variable {β : Type} {addr : β → Nat} {free : β → Bool}

/-- Every block of `bs` stands where one of `bs₀` stood, and a used one is that block. -/
def Since (addr : β → Nat) (free : β → Bool) (bs₀ bs : List β) : Prop :=
  ∀ c ∈ bs, ∃ c₀ ∈ bs₀, addr c₀ = addr c ∧ (free c = false → c₀ = c)

theorem Since.refl (bs : List β) : Since addr free bs bs := fun c hc => ⟨c, hc, rfl, fun _ => rfl⟩

theorem Since.trans {xs ys zs : List β} (h : Since addr free xs ys) (h' : Since addr free ys zs) :
    Since addr free xs zs := by
  intro c hc
  obtain ⟨c₁, hc₁, ha₁, hf₁⟩ := h' c hc
  obtain ⟨c₀, hc₀, ha₀, hf₀⟩ := h c₁ hc₁
  refine ⟨c₀, hc₀, ha₀.trans ha₁, fun hf => ?_⟩
  obtain rfl := hf₁ hf
  exact hf₀ hf

theorem Since.free_at {pre post : List β} {b b' : β} (ha : addr b' = addr b) (hf : free b' = true) :
    Since addr free (pre ++ b :: post) (pre ++ b' :: post) := by
  intro c hc
  rcases List.mem_append.mp hc with hc | hc
  · exact ⟨c, by simp [hc], rfl, fun _ => rfl⟩
  · rcases List.mem_cons.mp hc with rfl | hc
    · refine ⟨b, by simp, ha.symm, fun hno => ?_⟩
      rw [hf] at hno
      cases hno
    · exact ⟨c, by simp [hc], rfl, fun _ => rfl⟩

/-- A block that is still used is another one than a block that was free. -/
theorem Since.apart {R : β → β → Prop} {bs₀ bs : List β} {b c : β} (h : Since addr free bs₀ bs)
    (hap : bs₀.Pairwise R) (hb : b ∈ bs₀) (hf : free b = true) (hc : c ∈ bs)
    (hused : free c = false) : R b c ∨ R c b := by
  obtain ⟨c₀, hc₀, -, hsame⟩ := h c hc
  obtain rfl := hsame hused
  rcases pairwise_mem hap hb hc₀ with rfl | hsep
  · rw [hf] at hused
    cases hused
  · exact hsep

end Since

/-! ## Tilings -/

structure Blk where
  addr : Nat
  size : Nat
  free : Bool
  deriving DecidableEq, Repr

def Tiled (h : Nat) : Nat → List Blk → Nat → Prop
  | a, [], e => a = e
  | a, b :: bs, e => b.addr = a ∧ Tiled h (a + h + b.size) bs e

variable {h a e : Nat}

theorem tiled_append {xs ys : List Blk} :
    Tiled h a (xs ++ ys) e ↔ ∃ c, Tiled h a xs c ∧ Tiled h c ys e := by
  induction xs generalizing a with
  | nil => simp [Tiled]
  | cons b xs ih =>
    simp only [List.cons_append, Tiled, ih]
    constructor
    · rintro ⟨h1, c, h2, h3⟩
      exact ⟨c, ⟨h1, h2⟩, h3⟩
    · rintro ⟨c, ⟨h1, h2⟩, h3⟩
      exact ⟨h1, c, h2, h3⟩

theorem Tiled.le {bs : List Blk} (ht : Tiled h a bs e) : a ≤ e := by
  induction bs generalizing a with
  | nil => exact Nat.le_of_eq ht
  | cons b bs ih =>
    have := ih ht.2
    omega

theorem Tiled.bounds {bs : List Blk} (ht : Tiled h a bs e) :
    ∀ b ∈ bs, a ≤ b.addr ∧ b.addr + h + b.size ≤ e := by
  induction bs generalizing a with
  | nil => simp
  | cons c bs ih =>
    intro b hb
    have hle := ht.2.le
    obtain ⟨hc, ht⟩ := ht
    rcases List.mem_cons.mp hb with rfl | hb
    · omega
    · have := ih ht b hb
      omega

theorem Tiled.apart {bs : List Blk} (ht : Tiled h a bs e) :
    bs.Pairwise fun b c => b.addr + h + b.size ≤ c.addr := by
  induction bs generalizing a with
  | nil => exact .nil
  | cons b bs ih =>
    refine List.pairwise_cons.mpr ⟨fun c hc => ?_, ih ht.2⟩
    have := ht.2.bounds c hc
    have := ht.1
    omega

theorem Tiled.sep {bs : List Blk} (ht : Tiled h a bs e) {b c : Blk} (hb : b ∈ bs) (hc : c ∈ bs) :
    b = c ∨ b.addr + h + b.size ≤ c.addr ∨ c.addr + h + c.size ≤ b.addr :=
  pairwise_mem ht.apart hb hc

theorem Tiled.touch {xs ys : List Blk} {b c : Blk} (ht : Tiled h a (xs ++ b :: c :: ys) e) :
    b.addr + h + b.size = c.addr := by
  obtain ⟨d, -, hb, hc, -⟩ := tiled_append.mp ht
  omega

/-- A tiling has at most one block for every `h` bytes. -/
theorem Tiled.length_le {bs : List Blk} (ht : Tiled h a bs e) : a + h * bs.length ≤ e := by
  induction bs generalizing a with
  | nil => simpa using Nat.le_of_eq ht
  | cons b bs ih =>
    have := ih ht.2
    rw [List.length_cons, Nat.mul_succ]
    omega

theorem Tiled.dvd_addr {d : Nat} {bs : List Blk} (ht : Tiled h a bs e) (hh : d ∣ h) (ha : d ∣ a)
    (hs : ∀ b ∈ bs, d ∣ b.size) : ∀ b ∈ bs, d ∣ b.addr := by
  induction bs generalizing a with
  | nil => simp
  | cons c bs ih =>
    intro b hb
    have hc := hs c List.mem_cons_self
    rcases List.mem_cons.mp hb with rfl | hb
    · rwa [ht.1]
    · exact ih ht.2 (Nat.dvd_add (Nat.dvd_add ha hh) hc)
        (fun b hb => hs b (List.mem_cons_of_mem _ hb)) b hb

/-! ## Splitting -/

/-- A block that can serve a request of `r` bytes. -/
def Blk.Fits (r : Nat) (b : Blk) : Prop := b.free = true ∧ r ≤ b.size

instance (r : Nat) (b : Blk) : Decidable (b.Fits r) := inferInstanceAs (Decidable (_ ∧ _))

/-- A free block serving a request of `r` bytes: split when at least `k` bytes
beyond a second header are left, used whole otherwise. -/
def Blk.serve (h k : Nat) (b : Blk) (r : Nat) : List Blk :=
  if r + h + k ≤ b.size then
    [⟨b.addr, r, false⟩, ⟨b.addr + h + r, b.size - r - h, true⟩]
  else [⟨b.addr, b.size, false⟩]

theorem Blk.serve_tiled {k r : Nat} {b : Blk} (ht : Tiled h a [b] e) :
    Tiled h a (b.serve h k r) e := by
  obtain ⟨h1, h2⟩ := ht
  have h2 : a + h + b.size = e := h2
  unfold Blk.serve
  split
  · refine ⟨h1, by simp only [h1], ?_⟩
    show a + h + r + h + (b.size - r - h) = e
    omega
  · exact ⟨h1, h2⟩

/-! ## Coalescing -/

/-- Two neighbours as one block. -/
def Blk.join (h : Nat) (b c : Blk) : Blk := { b with size := b.size + (h + c.size) }

def Blk.release (b : Blk) : Blk := { b with free := true }

theorem release_tiled {xs ys : List Blk} {b : Blk} (ht : Tiled h a (xs ++ b :: ys) e) :
    Tiled h a (xs ++ b.release :: ys) e := by
  rw [tiled_append] at ht ⊢
  exact ht

theorem join_tiled {b c : Blk} {bs : List Blk} (ht : Tiled h a (b :: c :: bs) e) :
    Tiled h a (b.join h c :: bs) e := by
  obtain ⟨h1, -, h3⟩ := ht
  refine ⟨h1, ?_⟩
  rwa [show a + h + (b.join h c).size = a + h + b.size + h + c.size by simp only [Blk.join]; omega]

/-- Merge the free blocks after `b` into `b`, stay on the merged block, and go on. -/
def coalesceFrom (h : Nat) : Blk → List Blk → List Blk
  | b, [] => [b]
  | b, c :: cs =>
    if b.free && c.free then coalesceFrom h (b.join h c) cs else b :: coalesceFrom h c cs

def coalesce (h : Nat) : List Blk → List Blk
  | [] => []
  | b :: bs => coalesceFrom h b bs

theorem coalesceFrom_since (h : Nat) (b : Blk) (bs : List Blk) :
    Since Blk.addr Blk.free (b :: bs) (coalesceFrom h b bs) := by
  induction bs generalizing b with
  | nil => exact .refl _
  | cons c cs ih =>
    unfold coalesceFrom
    split
    · next hbc =>
      have hjoin : Since Blk.addr Blk.free (b :: c :: cs) (b.join h c :: cs) := by
        intro d hd
        rcases List.mem_cons.mp hd with rfl | hd
        · refine ⟨b, List.mem_cons_self, rfl, fun hf => ?_⟩
          rw [Bool.and_eq_true] at hbc
          rw [show (b.join h c).free = b.free from rfl, hbc.1] at hf
          cases hf
        · exact ⟨d, by simp [hd], rfl, fun _ => rfl⟩
      exact hjoin.trans (ih (b.join h c))
    · intro d hd
      rcases List.mem_cons.mp hd with rfl | hd
      · exact ⟨d, List.mem_cons_self, rfl, fun _ => rfl⟩
      · obtain ⟨e, he, hrest⟩ := ih c d hd
        exact ⟨e, List.mem_cons_of_mem _ he, hrest⟩

theorem coalesce_since (h : Nat) (bs : List Blk) :
    Since Blk.addr Blk.free bs (coalesce h bs) := by
  cases bs with
  | nil => exact .refl _
  | cons b bs => exact coalesceFrom_since h b bs

/-- No two neighbours are both free. -/
def Coalesced (bs : List Blk) : Prop := bs.IsChain fun b c => b.free = false ∨ c.free = false

theorem coalesceFrom_tiled {b : Blk} {bs : List Blk} (ht : Tiled h a (b :: bs) e) :
    Tiled h a (coalesceFrom h b bs) e := by
  induction bs generalizing a b with
  | nil => exact ht
  | cons c cs ih =>
    unfold coalesceFrom
    split
    · exact ih (join_tiled ht)
    · exact ⟨ht.1, ih ht.2⟩

theorem coalesce_tiled {bs : List Blk} (ht : Tiled h a bs e) : Tiled h a (coalesce h bs) e := by
  cases bs with
  | nil => exact ht
  | cons b bs => exact coalesceFrom_tiled ht

theorem coalesceFrom_head (h : Nat) (b : Blk) (bs : List Blk) :
    ∃ c cs, coalesceFrom h b bs = c :: cs ∧ c.free = b.free := by
  induction bs generalizing b with
  | nil => exact ⟨b, [], rfl, rfl⟩
  | cons d bs ih =>
    unfold coalesceFrom
    split
    · exact ih (b.join h d)
    · exact ⟨b, _, rfl, rfl⟩

theorem coalesceFrom_coalesced (h : Nat) (b : Blk) (bs : List Blk) :
    Coalesced (coalesceFrom h b bs) := by
  induction bs generalizing b with
  | nil => exact .singleton b
  | cons c cs ih =>
    unfold coalesceFrom
    split
    · exact ih _
    · next hbc =>
      obtain ⟨d, ds, hd, hfree⟩ := coalesceFrom_head h c cs
      have := ih c
      rw [hd] at this ⊢
      refine .cons_cons ?_ this
      rw [hfree]
      revert hbc
      cases b.free <;> cases c.free <;> simp

theorem coalesce_coalesced (h : Nat) (bs : List Blk) : Coalesced (coalesce h bs) := by
  cases bs with
  | nil => exact .nil
  | cons b bs => exact coalesceFrom_coalesced h b bs

theorem serve_coalesced {k r : Nat} {b : Blk} {xs ys : List Blk}
    (hc : Coalesced (xs ++ b :: ys)) (hb : b.free = true) :
    Coalesced (xs ++ b.serve h k r ++ ys) := by
  unfold Coalesced at *
  rw [List.isChain_append] at hc
  obtain ⟨hxs, hys, hj⟩ := hc
  rw [List.isChain_cons] at hys
  unfold Blk.serve
  split
  · -- the remainder is free, but what followed a free block is used
    rw [List.append_assoc, List.isChain_append]
    refine ⟨hxs, ?_, fun x _ y hy => ?_⟩
    · simp only [List.cons_append, List.nil_append, List.isChain_cons]
      refine ⟨fun y _ => .inl trivial, fun y hy => ?_, hys.2⟩
      exact .inr ((hys.1 y hy).resolve_left (by simp [hb]))
    · simp only [List.cons_append, List.head?_cons, Option.mem_def, Option.some.injEq] at hy
      exact .inr (by rw [← hy])
  · rw [List.append_assoc, List.isChain_append]
    refine ⟨hxs, ?_, fun x _ y hy => ?_⟩
    · simp only [List.cons_append, List.nil_append, List.isChain_cons]
      exact ⟨fun y _ => .inl trivial, hys.2⟩
    · simp only [List.cons_append, List.head?_cons, Option.mem_def, Option.some.injEq] at hy
      exact .inr (by rw [← hy])

theorem mem_coalesceFrom_used {b x : Blk} {bs : List Blk} (hx : x.free = false) :
    x ∈ coalesceFrom h b bs ↔ x ∈ b :: bs := by
  induction bs generalizing b with
  | nil => rfl
  | cons c cs ih =>
    unfold coalesceFrom
    split
    · next hbc =>
      simp only [Bool.and_eq_true] at hbc
      have hne : x ≠ b ∧ x ≠ c ∧ x ≠ b.join h c := by
        refine ⟨?_, ?_, ?_⟩ <;> rintro rfl <;> simp_all [Blk.join]
      simp [ih, hne]
    · simp [ih]

theorem mem_coalesce_used {x : Blk} {bs : List Blk} (hx : x.free = false) :
    x ∈ coalesce h bs ↔ x ∈ bs := by
  cases bs with
  | nil => rfl
  | cons b bs => exact mem_coalesceFrom_used hx

/-- What holds of the blocks of a list and of the joins of such blocks holds of
the coalesced list. -/
theorem coalesceFrom_all {P : Blk → Prop} (hj : ∀ b c, P b → P c → P (b.join h c)) {b : Blk}
    {bs : List Blk} (hb : P b) (hbs : ∀ x ∈ bs, P x) : ∀ x ∈ coalesceFrom h b bs, P x := by
  induction bs generalizing b with
  | nil => simpa [coalesceFrom] using hb
  | cons c cs ih =>
    have hc := hbs c List.mem_cons_self
    have hcs := fun x hx => hbs x (List.mem_cons_of_mem _ hx)
    unfold coalesceFrom
    split
    · exact ih (hj b c hb hc) hcs
    · intro x hx
      rcases List.mem_cons.mp hx with rfl | hx
      · exact hb
      · exact ih hc hcs x hx

/-! ## A coalesced tiling is determined by its used blocks -/

/-- The first block after a free one, if any, is used. -/
theorem Coalesced.head_used {b c : Blk} {cs : List Blk} (hc : Coalesced (b :: c :: cs))
    (hb : b.free = true) : c.free = false := by
  have := List.isChain_cons_cons.mp hc
  simpa [hb] using this.1

theorem Coalesced.tail {b : Blk} {bs : List Blk} (hc : Coalesced (b :: bs)) : Coalesced bs :=
  List.IsChain.tail hc

theorem Tiled.tail_addr {b : Blk} {bs : List Blk} (ht : Tiled h a (b :: bs) e) :
    ∀ x ∈ bs, a + h ≤ x.addr := by
  intro x hx
  have := ht.2.bounds x hx
  omega

/-- Dropping equal heads keeps two lists' used blocks the same. -/
theorem used_tail (hh : 0 < h) {b : Blk} {bs cs : List Blk} (hb : Tiled h a (b :: bs) e)
    (hc : Tiled h a (b :: cs) e) (hu : ∀ x, x.free = false → (x ∈ b :: bs ↔ x ∈ b :: cs)) :
    ∀ x, x.free = false → (x ∈ bs ↔ x ∈ cs) := by
  intro x hx
  have hba := hb.1
  constructor
  · intro hm
    rcases List.mem_cons.mp ((hu x hx).mp (List.mem_cons_of_mem _ hm)) with rfl | hm'
    · have := hb.tail_addr x hm
      omega
    · exact hm'
  · intro hm
    rcases List.mem_cons.mp ((hu x hx).mpr (List.mem_cons_of_mem _ hm)) with rfl | hm'
    · have := hc.tail_addr x hm
      omega
    · exact hm'

/-- A used block at the start of one list is the head of the other. -/
theorem used_head (hh : 0 < h) {b c : Blk} {bs cs : List Blk} (hb : Tiled h a (b :: bs) e)
    (hc : Tiled h a (c :: cs) e) (hu : ∀ x, x.free = false → (x ∈ b :: bs ↔ x ∈ c :: cs))
    (hf : b.free = false) : c = b := by
  rcases List.mem_cons.mp ((hu b hf).mp List.mem_cons_self) with h1 | h1
  · exact h1.symm
  · have := hc.tail_addr b h1
    have := hb.1
    omega

/-- The size of a free block followed by a used one is where the first used
block starts. -/
theorem free_size_le {b c d : Blk} {bs cs : List Blk}
    (hb : Tiled h a (b :: d :: bs) e) (hc : Tiled h a (c :: cs) e)
    (hu : ∀ x, x.free = false → (x ∈ b :: d :: bs ↔ x ∈ c :: cs)) (hcf : c.free = true)
    (hd : d.free = false) : c.size ≤ b.size := by
  have hda : d.addr = a + h + b.size := hb.2.1
  rcases List.mem_cons.mp ((hu d hd).mp (by simp)) with h1 | h1
  · rw [← h1, hd] at hcf
    cases hcf
  · have := hc.2.bounds d h1
    omega

/-- **A coalesced tiling is determined by its used blocks.** -/
theorem tiled_determined (hh : 0 < h) {bs cs : List Blk} (hb : Tiled h a bs e)
    (hc : Tiled h a cs e) (hbc : Coalesced bs) (hcc : Coalesced cs)
    (hu : ∀ x, x.free = false → (x ∈ bs ↔ x ∈ cs)) : bs = cs := by
  induction bs generalizing a cs with
  | nil =>
    cases cs with
    | nil => rfl
    | cons c cs =>
      have := hc.2.le
      have : a = e := hb
      omega
  | cons b bs ih =>
    cases cs with
    | nil =>
      have := hb.2.le
      have : a = e := hc
      omega
    | cons c cs =>
      -- the heads start at `a`; they are equal, so the tails start at the same place
      suffices hbc' : c = b by
        subst hbc'
        rw [ih hb.2 hc.2 hbc.tail hcc.tail (used_tail hh hb hc hu)]
      cases hbf : b.free with
      | false => exact used_head hh hb hc hu hbf
      | true =>
        cases hcf : c.free with
        | false => exact (used_head hh hc hb (fun x hx => (hu x hx).symm) hcf).symm
        | true =>
          have hsize : c.size = b.size := by
            cases bs with
            | nil =>
              cases cs with
              | nil =>
                have h1 : a + h + b.size = e := hb.2
                have h2 : a + h + c.size = e := hc.2
                omega
              | cons d cs =>
                -- `d` is used, but the other list has no used block
                have hd := hcc.head_used hcf
                have := (hu d hd).mpr (by simp)
                rw [List.mem_singleton] at this
                rw [this, hbf] at hd
                cases hd
            | cons d bs =>
              have hd := hbc.head_used hbf
              have h1 := free_size_le hb hc hu hcf hd
              cases cs with
              | nil =>
                have := (hu d hd).mp (by simp)
                rw [List.mem_singleton] at this
                rw [this, hcf] at hd
                cases hd
              | cons d' cs =>
                have hd' := hcc.head_used hcf
                have h2 := free_size_le hc hb (fun x hx => (hu x hx).symm) hbf hd'
                omega
          have haddr : c.addr = b.addr := by rw [hb.1, hc.1]
          cases b
          cases c
          simp_all

end Kfs.Lib
