import Kfs.Lib.Bytes
import Kfs.Lib.Tiling

/-!
# A first-fit arena

An `Arena` is a heap as its clients have it: the blocks that they hold, in the order of
their addresses, and what was written to these. It has no headers and no list of free
blocks: the room is what is left between the blocks. `alloc` takes the first gap that is
large enough, and `release` undoes it (`release_alloc`).

`place_held` connects it to a tiling: where no two neighbours are free, the first block
that fits is the first gap with room.
-/

namespace Kfs.Lib

/-- A block that a client holds. -/
structure Held where
  addr : Nat
  size : Nat
  deriving DecidableEq, Repr

/-- The `n` bytes from `a` on lie in the block. -/
def Held.Has (p : Held) (a n : Nat) : Prop := p.addr ≤ a ∧ a + n ≤ p.addr + p.size

instance (p : Held) (a n : Nat) : Decidable (p.Has a n) := inferInstanceAs (Decidable (_ ∧ _))

/-- The blocks lie in this order in `[a, e)`, with room for a header of `h` bytes before each. -/
def Ordered (h : Nat) : Nat → List Held → Nat → Prop
  | a, [], e => a ≤ e
  | a, p :: ps, e => a + h ≤ p.addr ∧ Ordered h (p.addr + p.size) ps e

/-- What a request of `r` bytes gets of `room` bytes: all of it, if the rest cannot be a
block with `k` bytes. -/
def grant (h k r room : Nat) : Nat := if r + h + k ≤ room then r else room

/-- A block of `r` bytes is put into the first gap with room for it and its header. -/
def place (h k r : Nat) : Nat → List Held → Nat → Option (Nat × List Held)
  | a, [], e => if a + h + r ≤ e then some (a + h, [⟨a + h, grant h k r (e - a - h)⟩]) else none
  | a, p :: ps, e =>
    if a + h + r ≤ p.addr - h
      then some (a + h, ⟨a + h, grant h k r (p.addr - h - a - h)⟩ :: p :: ps)
    else (place h k r (p.addr + p.size) ps e).map fun (q, qs) => (q, p :: qs)

section Place

variable {h k r a e q : Nat} {ps qs : List Held}

theorem grant_le (room : Nat) (hr : r ≤ room) : grant h k r room ≤ room := by
  unfold grant
  split
  · exact hr
  · exact Nat.le_refl room

theorem Ordered.le (ho : Ordered h a ps e) : a ≤ e := by
  induction ps generalizing a with
  | nil => exact ho
  | cons p ps ih =>
    have := ih ho.2
    have := ho.1
    omega

theorem Ordered.mono {b : Nat} (ho : Ordered h a ps e) (hb : b ≤ a) : Ordered h b ps e := by
  cases ps with
  | nil => exact Nat.le_trans hb ho
  | cons p ps =>
    have := ho.1
    exact ⟨by omega, ho.2⟩

theorem Ordered.filter (ho : Ordered h a ps e) (f : Held → Bool) : Ordered h a (ps.filter f) e := by
  induction ps generalizing a with
  | nil => exact ho
  | cons p ps ih =>
    have hp := ho.1
    rw [List.filter_cons]
    split
    · exact ⟨hp, ih ho.2⟩
    · exact (ih ho.2).mono (by omega)

theorem Ordered.bounds (ho : Ordered h a ps e) :
    ∀ p ∈ ps, a + h ≤ p.addr ∧ p.addr + p.size ≤ e := by
  induction ps generalizing a with
  | nil => simp
  | cons p ps ih =>
    have hrest := ih ho.2
    have hp := ho.1
    intro c hc
    rcases List.mem_cons.mp hc with rfl | hc
    · exact ⟨hp, ho.2.le⟩
    · have := hrest c hc
      omega

theorem Ordered.sep (ho : Ordered h a ps e) : ∀ b ∈ ps, ∀ c ∈ ps,
    b = c ∨ b.addr + b.size + h ≤ c.addr ∨ c.addr + c.size + h ≤ b.addr := by
  induction ps generalizing a with
  | nil => simp
  | cons p ps ih =>
    have hrest := ho.2.bounds
    intro b hb c hc
    rcases List.mem_cons.mp hb with hbp | hb <;> rcases List.mem_cons.mp hc with hcp | hc
    · exact .inl (hbp.trans hcp.symm)
    · exact .inr (.inl (hbp ▸ (hrest c hc).1))
    · exact .inr (.inr (hcp ▸ (hrest b hb).1))
    · exact ih ho.2 b hb c hc

/-- What `place` does: one block is new, and lies in a gap. -/
theorem place_split (ho : Ordered h a ps e) (hp : place h k r a ps e = some (q, qs)) :
    ∃ pre post z, ps = pre ++ post ∧ qs = pre ++ ⟨q, z⟩ :: post ∧ Ordered h a qs e ∧
      ∀ p ∈ ps, p.addr + p.size + h ≤ q ∨ q + z + h ≤ p.addr := by
  induction ps generalizing a q qs with
  | nil =>
    unfold place at hp
    split at hp
    · next hroom =>
      cases hp
      have hg := grant_le (h := h) (k := k) (r := r) (e - a - h) (by omega)
      refine ⟨[], [], _, rfl, rfl, ⟨Nat.le_refl _, ?_⟩, by simp⟩
      show a + h + grant h k r (e - a - h) ≤ e
      omega
    · cases hp
  | cons p ps ih =>
    unfold place at hp
    have hbounds := ho.2.bounds
    split at hp
    · next hroom =>
      cases hp
      have hg := grant_le (h := h) (k := k) (r := r) (p.addr - h - a - h) (by omega)
      have hpa := ho.1
      refine ⟨[], p :: ps, _, rfl, rfl, ⟨Nat.le_refl _, ?_, ho.2⟩, fun c hc => .inr ?_⟩
      · show a + h + grant h k r (p.addr - h - a - h) + h ≤ p.addr
        omega
      · rcases List.mem_cons.mp hc with rfl | hc
        · omega
        · have := hbounds c hc
          omega
    · obtain ⟨⟨q', qs'⟩, hrest, heq⟩ := Option.map_eq_some_iff.mp hp
      cases heq
      obtain ⟨pre, post, z, rfl, rfl, ho', hap⟩ := ih ho.2 hrest
      refine ⟨p :: pre, post, z, rfl, rfl, ⟨ho.1, ho'⟩, fun c hc => ?_⟩
      rcases List.mem_cons.mp hc with rfl | hc
      · exact .inl (ho'.bounds ⟨q, z⟩ (by simp)).1
      · exact hap c hc

theorem place_large (hp : place h k r a ps e = some (q, qs)) : ∃ z, r ≤ z ∧ ⟨q, z⟩ ∈ qs := by
  have hgrant : ∀ room, r ≤ room → r ≤ grant h k r room := by
    intro room hr
    unfold grant
    split
    · exact Nat.le_refl r
    · exact hr
  induction ps generalizing a q qs with
  | nil =>
    unfold place at hp
    split at hp
    · next hroom =>
      cases hp
      exact ⟨_, hgrant _ (by omega), List.mem_cons_self⟩
    · cases hp
  | cons p ps ih =>
    unfold place at hp
    split at hp
    · next hroom =>
      cases hp
      exact ⟨_, hgrant _ (by omega), List.mem_cons_self⟩
    · obtain ⟨⟨q', qs'⟩, hrest, heq⟩ := Option.map_eq_some_iff.mp hp
      cases heq
      obtain ⟨z, hz, hm⟩ := ih hrest
      exact ⟨z, hz, List.mem_cons_of_mem _ hm⟩

end Place

/-! ## Arenas -/

/-- The blocks that clients hold in `[lo, hi)`, and the bytes of these that they wrote. -/
structure Arena (h lo hi : Nat) where
  blocks : List Held
  ordered : Ordered h lo blocks hi
  data : Mem
  written : Nat → Bool
  held : ∀ x, written x = true → ∃ p ∈ blocks, p.Has x 1

namespace Arena

variable {h k r lo hi q : Nat}

def Has (A : Arena h lo hi) (a : Nat) : Prop := ∃ p ∈ A.blocks, p.Has a 4

instance (A : Arena h lo hi) (a : Nat) : Decidable (A.Has a) :=
  inferInstanceAs (Decidable (∃ p ∈ A.blocks, p.Has a 4))

def Knows (A : Arena h lo hi) (a : Nat) : Prop := ∀ i < 4, A.written (a + i) = true

instance (A : Arena h lo hi) (a : Nat) : Decidable (A.Knows a) :=
  inferInstanceAs (Decidable (∀ i < 4, A.written (a + i) = true))

def empty (hle : lo ≤ hi) : Arena h lo hi := ⟨[], hle, fun _ => 0, fun _ => false, by simp⟩

def sizeOf (A : Arena h lo hi) (q : Nat) : Nat :=
  ((A.blocks.find? fun p => p.addr = q).map Held.size).getD 0

/-- A new block. Nothing is written to it yet. -/
def alloc (k r : Nat) (A : Arena h lo hi) : Option (Nat × Arena h lo hi) :=
  match hp : place h k r lo A.blocks hi with
  | none => none
  | some (q, qs) => some (q, {
      blocks := qs
      ordered := by
        obtain ⟨_, _, _, -, -, ho, -⟩ := place_split A.ordered hp
        exact ho
      data := A.data
      written := A.written
      held := fun x hx => by
        obtain ⟨pre, post, z, hps, hqs, -, -⟩ := place_split A.ordered hp
        obtain ⟨p, hm, hpx⟩ := A.held x hx
        rw [hps] at hm
        rw [hqs]
        exact ⟨p, by simp only [List.mem_append, List.mem_cons] at hm ⊢; tauto, hpx⟩ })

/-- The block at `q` is given back, if there is one. -/
def release (q : Nat) (A : Arena h lo hi) : Arena h lo hi where
  blocks := A.blocks.filter fun p => p.addr ≠ q
  ordered := A.ordered.filter _
  data := A.data
  written x := A.written x && (A.blocks.filter fun p => p.addr ≠ q).any fun p => p.Has x 1
  held x hx := by
    rw [Bool.and_eq_true, List.any_eq_true] at hx
    obtain ⟨p, hp, hx⟩ := hx.2
    exact ⟨p, hp, of_decide_eq_true hx⟩

/-- A word is written, if it lies in a block. -/
def store (a v : Nat) (A : Arena h lo hi) : Arena h lo hi :=
  if hw : A.Has a then {
    blocks := A.blocks
    ordered := A.ordered
    data := store32 A.data a v
    written := fun x => A.written x || decide (a ≤ x ∧ x < a + 4)
    held := fun x hx => by
      rw [Bool.or_eq_true] at hx
      rcases hx with hx | hx
      · exact A.held x hx
      · obtain ⟨p, hp, h1, h2⟩ := hw
        have hx := of_decide_eq_true hx
        exact ⟨p, hp, by omega, by omega⟩ }
  else A

theorem sizeOf_mem (hh : 0 < h) {A : Arena h lo hi} {p : Held} (hp : p ∈ A.blocks) :
    A.sizeOf p.addr = p.size := by
  unfold sizeOf
  cases hf : A.blocks.find? fun c => c.addr = p.addr with
  | none =>
    have := List.find?_eq_none.mp hf p hp
    simp at this
  | some c =>
    have haddr : c.addr = p.addr := by simpa using List.find?_some hf
    rcases A.ordered.sep c (List.mem_of_find?_eq_some hf) p hp with rfl | hsep | hsep
    · rfl
    · omega
    · omega

theorem sizeOf_absent {A : Arena h lo hi} (hq : ∀ p ∈ A.blocks, p.addr ≠ q) : A.sizeOf q = 0 := by
  unfold sizeOf
  rw [List.find?_eq_none.mpr (by simpa using hq)]
  rfl

theorem alloc_none {A : Arena h lo hi} (hp : place h k r lo A.blocks hi = none) :
    A.alloc k r = none := by
  unfold alloc
  split
  · rfl
  · next hp' =>
    rw [hp] at hp'
    cases hp'

theorem alloc_some {A : Arena h lo hi} {qs : List Held}
    (hp : place h k r lo A.blocks hi = some (q, qs)) :
    ∃ A', A.alloc k r = some (q, A') ∧ A'.blocks = qs ∧ A'.data = A.data ∧
    A'.written = A.written := by
  unfold alloc
  split
  · next hp' =>
    rw [hp] at hp'
    cases hp'
  · next hp' =>
    rw [hp] at hp'
    cases hp'
    exact ⟨_, rfl, rfl, rfl, rfl⟩

theorem alloc_inv {A A' : Arena h lo hi} (ha : A.alloc k r = some (q, A')) :
    place h k r lo A.blocks hi = some (q, A'.blocks) ∧ A'.data = A.data ∧
    A'.written = A.written := by
  cases hp : place h k r lo A.blocks hi with
  | none =>
    rw [alloc_none hp] at ha
    cases ha
  | some p =>
    obtain ⟨A'', ha', hb, hd, hw⟩ := alloc_some hp
    rw [ha] at ha'
    cases ha'
    exact ⟨by rw [hb], hd, hw⟩

theorem ext {A B : Arena h lo hi} (hb : A.blocks = B.blocks) (hd : A.data = B.data)
    (hw : A.written = B.written) : A = B := by
  cases A
  cases B
  cases hb
  cases hd
  cases hw
  rfl

theorem release_eq {A B : Arena h lo hi} (hb : (A.blocks.filter fun p => p.addr ≠ q) = B.blocks)
    (hd : A.data = B.data) (hw : A.written = B.written) : A.release q = B := by
  refine ext hb hd (funext fun x => ?_)
  show (A.written x && (A.blocks.filter fun p => p.addr ≠ q).any fun p => p.Has x 1) = B.written x
  rw [hb, hw, Bool.and_eq_left_iff_imp, List.any_eq_true]
  intro hx
  obtain ⟨p, hm, hpx⟩ := B.held x hx
  exact ⟨p, hm, decide_eq_true hpx⟩

theorem release_absent {A : Arena h lo hi} (hq : ∀ p ∈ A.blocks, p.addr ≠ q) : A.release q = A :=
  release_eq (List.filter_eq_self.mpr (by simpa using hq)) rfl rfl

/-- **Giving a block back** that was just taken leaves no trace. -/
theorem release_alloc (hh : 0 < h) {A A' : Arena h lo hi} (ha : A.alloc k r = some (q, A')) :
    A'.release q = A := by
  obtain ⟨hp, hd, hw⟩ := alloc_inv ha
  obtain ⟨pre, post, z, hps, hqs, -, hap⟩ := place_split A.ordered hp
  have hother : ∀ p ∈ A.blocks, p.addr ≠ q := by
    intro p hp
    have := hap p hp
    omega
  refine release_eq ?_ hd hw
  rw [hqs, List.filter_append, List.filter_cons, if_neg (by simp), ← List.filter_append, ← hps,
    List.filter_eq_self.mpr]
  simpa using hother

theorem store_blocks (A : Arena h lo hi) (a v : Nat) : (A.store a v).blocks = A.blocks := by
  unfold store
  split <;> rfl

/-- All that was written to the blocks of `A` is there in `B`, which has the same blocks. -/
structure Covers (B A : Arena h lo hi) : Prop where
  blocks : B.blocks = A.blocks
  written : ∀ x, A.written x = true → B.written x = true ∧ B.data x = A.data x

theorem covers_store (hh : 4 ≤ h) {A A' : Arena h lo hi} (ha : A.alloc k r = some (q, A'))
    (v : Nat) :
    ((A'.store q v).release q).Covers A := by
  have hrel := release_alloc (by omega) ha
  obtain ⟨hp, hd, hw⟩ := alloc_inv ha
  obtain ⟨pre, post, z, -, -, -, hap⟩ := place_split A.ordered hp
  have hblocks : ((A'.store q v).blocks.filter fun p => p.addr ≠ q) = A.blocks := by
    rw [store_blocks]
    exact congrArg blocks hrel
  refine ⟨hblocks, fun x hx => ?_⟩
  obtain ⟨p, hm, hpx⟩ := A.held x hx
  have hsep := hap p hm
  unfold Held.Has at hpx
  have hkept : (A'.store q v).written x = true ∧ (A'.store q v).data x = A.data x := by
    unfold store
    split
    · exact ⟨by simp [hw, hx], by rw [← hd]; exact store32_other (by omega)⟩
    · exact ⟨by rw [hw, hx], by rw [hd]⟩
  refine ⟨?_, hkept.2⟩
  show ((A'.store q v).written x && ((A'.store q v).blocks.filter fun p => p.addr ≠ q).any fun p =>
    p.Has x 1) = true
  rw [hblocks, hkept.1, Bool.true_and, List.any_eq_true]
  exact ⟨p, hm, decide_eq_true hpx⟩

end Arena

/-! ## Tilings -/

/-- The used blocks, as the clients hold them. -/
def heldOf (h : Nat) (bs : List Blk) : List Held :=
  (bs.filter fun b => !b.free).map fun b => ⟨b.addr + h, b.size⟩

section Tilings

variable {h k r a e : Nat} {b : Blk} {bs pre post : List Blk}

theorem heldOf_append (xs ys : List Blk) : heldOf h (xs ++ ys) = heldOf h xs ++ heldOf h ys := by
  unfold heldOf
  rw [List.filter_append, List.map_append]

theorem heldOf_used (hb : b.free = false) (bs : List Blk) :
    heldOf h (b :: bs) = ⟨b.addr + h, b.size⟩ :: heldOf h bs := by
  unfold heldOf
  rw [List.filter_cons, if_pos (by rw [hb]; rfl), List.map_cons]

theorem heldOf_free (hb : b.free = true) (bs : List Blk) : heldOf h (b :: bs) = heldOf h bs := by
  unfold heldOf
  rw [List.filter_cons, if_neg (by rw [hb]; decide)]

theorem mem_heldOf {p : Held} : p ∈ heldOf h bs ↔ ∃ b ∈ bs, b.free = false ∧
    p = ⟨b.addr + h, b.size⟩ := by
  unfold heldOf
  simp only [List.mem_map, List.mem_filter, Bool.not_eq_true', and_assoc]
  exact ⟨fun ⟨b, hb, hf, he⟩ => ⟨b, hb, hf, he.symm⟩, fun ⟨b, hb, hf, he⟩ => ⟨b, hb, hf, he.symm⟩⟩

theorem held_ordered (ht : Tiled h a bs e) : Ordered h a (heldOf h bs) e := by
  induction bs generalizing a with
  | nil => exact Nat.le_of_eq ht
  | cons b bs ih =>
    have haddr := ht.1
    have hrest := ih ht.2
    cases hb : b.free with
    | true =>
      rw [heldOf_free hb]
      exact hrest.mono (by omega)
    | false =>
      rw [heldOf_used hb, haddr]
      exact ⟨Nat.le_refl _, hrest⟩

/-- A coalesced tiling is determined by what is held of it. -/
theorem heldOf_determined (hh : 0 < h) {cs : List Blk} (hb : Tiled h a bs e) (hc : Tiled h a cs e)
    (hbc : Coalesced bs) (hcc : Coalesced cs) (heq : heldOf h bs = heldOf h cs) : bs = cs := by
  have hmem : ∀ {ds : List Blk} {x : Blk}, x.free = false →
    (x ∈ ds ↔ ⟨x.addr + h, x.size⟩ ∈ heldOf h ds) := by
    intro ds x hx
    rw [mem_heldOf]
    constructor
    · exact fun hm => ⟨x, hm, hx, rfl⟩
    · rintro ⟨d, hd, hdf, he⟩
      obtain ⟨h1, h2⟩ := Held.mk.inj he
      have hxd : x = d := by
        cases x
        cases d
        simp_all
      rw [hxd]
      exact hd
  refine tiled_determined hh hb hc hbc hcc fun x hx => ?_
  rw [hmem hx, hmem hx, heq]

theorem place_free (hh : 0 < h) (ht : Tiled h a (b :: bs) e)
    (hc : Coalesced (b :: bs)) (hb : b.free = true) (hr : b.size < r) :
    place h k r a (heldOf h bs) e = place h k r (a + h + b.size) (heldOf h bs) e := by
  cases bs with
  | nil =>
    have he : a + h + b.size = e := ht.2
    show place h k r a [] e = place h k r (a + h + b.size) [] e
    unfold place
    rw [if_neg (by omega), if_neg (by omega)]
  | cons c cs =>
    have haddr : c.addr = a + h + b.size := ht.2.1
    rw [heldOf_used (hc.head_used hb)]
    unfold place
    dsimp only
    rw [if_neg (by omega), if_neg (by omega)]

theorem place_used (hh : 0 < h) (ha : b.addr = a) (hb : b.free = false) :
    place h k r a (heldOf h (b :: bs)) e =
      (place h k r (a + h + b.size) (heldOf h bs) e).map fun (q, qs) =>
        (q, ⟨b.addr + h, b.size⟩ :: qs) := by
  rw [heldOf_used hb]
  conv_lhs => unfold place
  dsimp only
  rw [if_neg (by omega), ha]

theorem place_full (hh : 0 < h) (ht : Tiled h a bs e) (hc : Coalesced bs)
    (hno : ∀ b ∈ bs, ¬ b.Fits r) :
    place h k r a (heldOf h bs) e = none := by
  induction bs generalizing a with
  | nil =>
    have he : a = e := ht
    show place h k r a [] e = none
    unfold place
    rw [if_neg (by omega)]
  | cons b bs ih =>
    have hrest := ih ht.2 hc.tail fun c hc => hno c (List.mem_cons_of_mem _ hc)
    cases hb : b.free with
    | true =>
      have hfit := hno b List.mem_cons_self
      unfold Blk.Fits at hfit
      rw [heldOf_free hb, place_free hh ht hc hb (by simpa [hb] using hfit)]
      exact hrest
    | false =>
      rw [place_used hh ht.1 hb, hrest]
      rfl

theorem heldOf_serve (b : Blk) : heldOf h (b.serve h k r) = [⟨b.addr + h, grant h k r b.size⟩] := by
  unfold heldOf Blk.serve grant
  split <;> rfl

/-- **First fit on the list is first fit between the used blocks.** -/
theorem place_held (hh : 0 < h) (ht : Tiled h a (pre ++ b :: post) e)
    (hc : Coalesced (pre ++ b :: post)) (hpre : ∀ c ∈ pre, ¬ c.Fits r) (hb : b.Fits r) :
    place h k r a (heldOf h (pre ++ b :: post)) e =
      some (b.addr + h, heldOf h (pre ++ b.serve h k r ++ post)) := by
  induction pre generalizing a with
  | nil =>
    have haddr : b.addr = a := ht.1
    have hsize : r ≤ b.size := hb.2
    rw [List.nil_append, List.nil_append, heldOf_free hb.1, heldOf_append, heldOf_serve, haddr]
    cases post with
    | nil =>
      have he : a + h + b.size = e := ht.2
      show place h k r a [] e = _
      unfold place
      rw [if_pos (by omega), show e - a - h = b.size by omega]
      rfl
    | cons c cs =>
      have hnext : c.addr = a + h + b.size := ht.2.1
      rw [heldOf_used (hc.head_used hb.1)]
      unfold place
      dsimp only
      rw [if_pos (by omega), show c.addr + h - h - a - h = b.size by omega]
      rfl
  | cons c pre ih =>
    have hrest := ih ht.2 hc.tail fun d hd => hpre d (List.mem_cons_of_mem _ hd)
    cases hcf : c.free with
    | true =>
      have hfit := hpre c List.mem_cons_self
      unfold Blk.Fits at hfit
      rw [List.cons_append, List.cons_append, List.cons_append, heldOf_free hcf, heldOf_free hcf,
        place_free hh (show Tiled h a (c :: (pre ++ b :: post)) e from ht) hc hcf
          (by simpa [hcf] using hfit)]
      exact hrest
    | false =>
      rw [List.cons_append, List.cons_append, List.cons_append, place_used hh ht.1 hcf,
        heldOf_used hcf, hrest]
      rfl

theorem heldOf_coalesceFrom (b : Blk) (bs : List Blk) :
    heldOf h (coalesceFrom h b bs) = heldOf h (b :: bs) := by
  induction bs generalizing b with
  | nil => rfl
  | cons c cs ih =>
    unfold coalesceFrom
    split
    · next hbc =>
      rw [Bool.and_eq_true] at hbc
      rw [ih, heldOf_free (show (b.join h c).free = true from hbc.1),
        heldOf_free hbc.1, heldOf_free hbc.2]
    · cases hb : b.free with
      | true => rw [heldOf_free hb, heldOf_free hb, ih]
      | false => rw [heldOf_used hb, heldOf_used hb, ih]

theorem heldOf_coalesce (bs : List Blk) : heldOf h (coalesce h bs) = heldOf h bs := by
  cases bs with
  | nil => rfl
  | cons b bs => exact heldOf_coalesceFrom b bs

theorem heldOf_release (hh : 0 < h) (ht : Tiled h a (pre ++ b :: post) e) (hb : b.free = false) :
    heldOf h (pre ++ b.release :: post) =
      (heldOf h (pre ++ b :: post)).filter fun p => p.addr ≠ b.addr + h := by
  have hother : ∀ xs : List Blk, (∀ c ∈ xs, c ∈ pre ++ post) →
      (heldOf h xs).filter (fun p => p.addr ≠ b.addr + h) = heldOf h xs := by
    intro xs hxs
    rw [List.filter_eq_self]
    intro p hp
    obtain ⟨c, hc, -, rfl⟩ := mem_heldOf.mp hp
    have hap := pairwise_split ht.apart (hxs c hc)
    simp only [ne_eq, decide_not, Bool.not_eq_eq_eq_not, Bool.not_true, decide_eq_false_iff_not]
    omega
  rw [heldOf_append, heldOf_append, heldOf_free (show b.release.free = true from rfl),
    heldOf_used hb,
    List.filter_append, List.filter_cons, if_neg (by simp),
    hother pre fun c hc => List.mem_append_left _ hc,
    hother post fun c hc => List.mem_append_right _ hc]

end Tilings

end Kfs.Lib
