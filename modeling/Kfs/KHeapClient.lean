import Kfs.KHeapSize
import Kfs.Lib.Arena
import Kfs.Lib.Program

/-!
# The heap as its clients have it

A client is a program over the calls of the heap: it allocates, frees, asks for sizes, and
reads and writes words of what it holds. On an `Arena` the same calls need no headers and
no list. The heap refines it (`heap_clients`): as long as a client frees only what it holds,
stays inside it, and reads only what it wrote, it cannot tell the heap from an arena: all
addresses, sizes and words are the same, and so are the panics.
-/

namespace Kfs

open Kfs.Lib

/-- What a client asks of the heap. -/
inductive HeapCall : Type → Type where
  | kmalloc (n : Nat) : HeapCall Nat
  | kfree (p : Nat) : HeapCall Unit
  | ksize (p : Nat) : HeapCall Nat
  | read (a : Nat) : HeapCall Nat
  | write (a v : Nat) : HeapCall Unit

def HeapCall.onHeap : ∀ α, HeapCall α → K Flat α
  | _, .kmalloc n => Kfs.kmalloc n
  | _, .kfree p => Kfs.kfree p
  | _, .ksize p => Kfs.ksize p
  | _, .read a => ld a
  | _, .write a v => st a v

abbrev HeapArena := Arena headerSize kheapStart kheapLimit

def HeapArena.empty : HeapArena := Arena.empty (by decide)

def HeapCall.onArena : ∀ α, HeapCall α → EStateM Trap HeapArena α
  | _, .kmalloc n => fun A =>
    if n = 0 then .ok 0 A
    else match A.alloc 16 (round8 n) with
      | some (p, A') => .ok p A'
      | none =>
        .error (.panic "kmalloc: out of memory! Requested %d bytes, heap full\n" [round8 n]) A
  | _, .kfree p => modify (Arena.release p)
  | _, .ksize p => do return (← get).sizeOf p
  | _, .read a => do return load32 (← get).data a
  | _, .write a v => modify (Arena.store a v)

def HeapCall.Permitted : ∀ α, HeapCall α → HeapArena → Prop
  | _, .kmalloc _, _ => True
  | _, .kfree p, A => p = 0 ∨ ∃ b ∈ A.blocks, b.addr = p
  | _, .ksize p, A => p = 0 ∨ ∃ b ∈ A.blocks, b.addr = p
  | _, .read a, A => A.Has a ∧ A.Knows a
  | _, .write a _, A => A.Has a

instance : ∀ α (e : HeapCall α) (A : HeapArena), Decidable (e.Permitted α A)
  | _, .kmalloc _, _ => .isTrue trivial
  | _, .kfree p, A => inferInstanceAs (Decidable (p = 0 ∨ ∃ b ∈ A.blocks, b.addr = p))
  | _, .ksize p, A => inferInstanceAs (Decidable (p = 0 ∨ ∃ b ∈ A.blocks, b.addr = p))
  | _, .read a, A => inferInstanceAs (Decidable (A.Has a ∧ A.Knows a))
  | _, .write a _, A => inferInstanceAs (Decidable (A.Has a))

/-- The heap's used blocks are those of the arena, with what was written to them. -/
def Models (s : State Flat) (A : HeapArena) : Prop :=
  ∃ bs, HeapInv s bs ∧ heldOf headerSize bs = A.blocks ∧ ∀ x, A.written x = true →
    s.mem.data x = A.data x

section Calls

variable {s : State Flat} {A : HeapArena} {bs : List Blk}

theorem written_used (hb : heldOf headerSize bs = A.blocks) {x : Nat} (hx : A.written x = true) :
    ∃ c ∈ bs, c.free = false ∧ c.addr + 16 ≤ x ∧ x < c.addr + 16 + c.size := by
  obtain ⟨p, hp, h1, h2⟩ := A.held x hx
  rw [← hb] at hp
  obtain ⟨c, hc, hf, rfl⟩ := mem_heldOf.mp hp
  exact ⟨c, hc, hf, h1, h2⟩

theorem kmalloc_models (h : Models s A) (n : Nat) :
    Agree Models Models (Kfs.kmalloc n s) (HeapCall.onArena _ (.kmalloc n) A) := by
  obtain ⟨bs, hinv, hb, hw⟩ := h
  by_cases hn : n = 0
  · subst hn
    exact .ok ⟨bs, hinv, hb, hw⟩
  rcases first_such (Blk.Fits (round8 n)) bs with hfull | ⟨pre, b, post, rfl, hpre, hfit⟩
  · have hplace := place_full (k := 16) (by decide) hinv.tiled hinv.coalesced hfull
    rw [hb] at hplace
    refine .of_error (kmalloc_full hinv.rep hn hfull) ?_ ⟨bs, hinv, hb, hw⟩
    simp only [HeapCall.onArena, if_neg hn, Arena.alloc_none hplace]
  · have hplace := place_held (k := 16) (by decide) hinv.tiled hinv.coalesced hpre hfit
    rw [hb] at hplace
    obtain ⟨A', ha, hblocks, hdata, hwritten⟩ := Arena.alloc_some hplace
    obtain ⟨s', hk, hinv', -, hsame, -⟩ := kmalloc_hit hinv hn hpre hfit
    refine .of_ok hk (t := A') ?_ ⟨_, hinv', hblocks.symm, fun x hx => ?_⟩
    · simp only [HeapCall.onArena, if_neg hn, ha]
      rfl
    · rw [hwritten] at hx
      obtain ⟨c, hc, hcf, h1, h2⟩ := written_used hb hx
      rw [hdata, ← hw x hx]
      refine hsame x fun hin => ?_
      rcases hinv.tiled.sep hc (c := b) (by simp) with rfl | hsep | hsep
      · rw [hfit.1] at hcf
        cases hcf
      · simp only [headerSize] at hsep
        omega
      · simp only [headerSize] at hsep
        omega

theorem HeapArena.addr_ne_zero (A : HeapArena) : ∀ q ∈ A.blocks, q.addr ≠ 0 := by
  intro q hq
  have := (A.ordered.bounds q hq).1
  simp only [headerSize] at this
  omega

theorem kfree_models (h : Models s A) {p : Nat} (hp : HeapCall.Permitted _ (.kfree p) A) :
    Agree Models Models (Kfs.kfree p s) (HeapCall.onArena _ (.kfree p) A) := by
  obtain ⟨bs, hinv, hb, hw⟩ := h
  rcases hp with rfl | ⟨q, hq, rfl⟩
  · refine .of_ok rfl (t := A) ?_ ⟨bs, hinv, hb, hw⟩
    show EStateM.Result.ok () (A.release 0) = .ok () A
    rw [Arena.release_absent A.addr_ne_zero]
  · rw [← hb] at hq
    obtain ⟨b, hm, hf, rfl⟩ := mem_heldOf.mp hq
    obtain ⟨pre, post, rfl⟩ := List.append_of_mem hm
    obtain ⟨s', hk, hinv', -, hsame, -⟩ := kfree_spec hinv hf
    refine .of_ok hk rfl ⟨_, hinv', ?_, fun x hx => ?_⟩
    · show heldOf headerSize (coalesce headerSize (pre ++ b.release :: post)) =
        A.blocks.filter fun p => p.addr ≠ b.addr + headerSize
      rw [heldOf_coalesce, heldOf_release (by decide) hinv.tiled hf, ← hb]
    · have hx : A.written x = true := (Bool.and_eq_true _ _ ▸ hx).1
      obtain ⟨c, hc, hcf, h1, h2⟩ := written_used hb hx
      show s'.mem.data x = A.data x
      rw [← hw x hx]
      refine hsame x ?_
      rintro ⟨d, hd, h3, h4⟩
      rcases hinv.tiled.sep hc hd with rfl | hsep | hsep
      · omega
      · simp only [headerSize] at hsep
        omega
      · simp only [headerSize] at hsep
        omega

theorem ksize_models (h : Models s A) {p : Nat} (hp : HeapCall.Permitted _ (.ksize p) A) :
    Agree Models Models (Kfs.ksize p s) (HeapCall.onArena _ (.ksize p) A) := by
  have hA : ∀ z, A.sizeOf p = z → HeapCall.onArena _ (.ksize p) A = .ok z A := by
    rintro z rfl
    rfl
  rcases hp with rfl | ⟨q, hq, rfl⟩
  · exact .of_ok rfl (hA 0 (Arena.sizeOf_absent A.addr_ne_zero)) h
  have hsize := Arena.sizeOf_mem (by decide) hq
  obtain ⟨bs, hinv, hb, hw⟩ := h
  rw [← hb] at hq
  obtain ⟨b, hm, hf, rfl⟩ := mem_heldOf.mp hq
  refine .of_ok (a := b.size) ?_ (hA _ hsize) ⟨bs, hinv, hb, hw⟩
  have hbnd := hinv.bounds hm
  have hmod := hinv.rep.addr_mod hm
  have hhold := hinv.list.holds b hm
  by_cases hend : b.addr + 16 ≤ kheapEnd
  · have hany := ksize_any hinv.rep (a := b.addr + 16) (by simp only [kheapStart]; omega) hend
      (by omega)
      (hhold.2.2 hf)
    rw [Nat.add_sub_cancel, show load32 s.mem.data b.addr = b.size from hhold.1] at hany
    exact hany
  · -- the payload is empty, and starts where the heap ends
    simp only [kheapEnd] at hend
    unfold Kfs.ksize
    rw [if_neg (by simp only [headerSize]; omega), get_bind_apply, hinv.base, hinv.size, if_pos]
    · rw [show b.size = 0 by omega]
      rfl
    · simp only [Bool.or_eq_true, decide_eq_true_eq]
      simp only [add32, headerSize, kheapStart, kheapSize, kheapEnd]
      omega

theorem HeapInv.word (hinv : HeapInv s bs) (hb : heldOf headerSize bs = A.blocks)
    {a : Nat} (ha : A.Has a) :
    ∃ b ∈ bs, b.free = false ∧ b.addr + 16 ≤ a ∧ a + 4 ≤ b.addr + 16 + b.size ∧ a < 2 ^ 32 := by
  obtain ⟨p, hp, h1, h2⟩ := ha
  rw [← hb] at hp
  obtain ⟨b, hm, hf, rfl⟩ := mem_heldOf.mp hp
  have hbnd := hinv.bounds hm
  simp only [headerSize] at h1 h2
  exact ⟨b, hm, hf, h1, h2, by omega⟩

theorem read_models (h : Models s A) {a : Nat} (hp : HeapCall.Permitted _ (.read a) A) :
    Agree Models Models (ld a s) (HeapCall.onArena _ (.read a) A) := by
  obtain ⟨ha, hknown⟩ := hp
  obtain ⟨bs, hinv, hb, hw⟩ := h
  obtain ⟨-, -, -, -, -, hlt⟩ := hinv.word hb ha
  refine .of_ok (ld_flat hlt s) (t := A) ?_ ⟨bs, hinv, hb, hw⟩
  show EStateM.Result.ok (load32 A.data a) A = .ok (load32 s.mem.data a) A
  rw [load32_congr (m := A.data) fun x h1 h2 => hw x ?_]
  have := hknown (x - a) (by omega)
  rwa [Nat.add_sub_cancel' h1] at this

theorem write_models (h : Models s A) {a : Nat} (v : Nat)
    (hp : HeapCall.Permitted _ (.write a v) A) :
    Agree Models Models (st a v s) (HeapCall.onArena _ (.write a v) A) := by
  have ha : A.Has a := hp
  obtain ⟨bs, hinv, hb, hw⟩ := h
  obtain ⟨b, hm, -, h1, h2, hlt⟩ := hinv.word hb ha
  refine .of_ok (st_flat hlt v s) rfl
    ⟨bs, (hinv.rep.store hm h1 h2).inv hinv.coalesced, ?_, fun x hx => ?_⟩
  · unfold Arena.store
    rw [dif_pos ha]
    exact hb
  · unfold Arena.store at hx ⊢
    rw [dif_pos ha] at hx ⊢
    show store32 s.mem.data a v x = store32 A.data a v x
    by_cases hin : a ≤ x ∧ x < a + 4
    · exact store32_inside hin.1 hin.2
    · rw [Bool.or_eq_true, decide_eq_true_eq] at hx
      rw [store32_other (by omega), store32_other (by omega), hw x (hx.resolve_right hin)]

/-- **Each call** that is permitted. -/
theorem call_models {α : Type} (e : HeapCall α) (s : State Flat) (A : HeapArena) (h : Models s A)
    (hp : HeapCall.Permitted _ e A) :
    Agree Models Models (HeapCall.onHeap _ e s) (HeapCall.onArena _ e A) := by
  cases e with
  | kmalloc n => exact kmalloc_models h n
  | kfree p => exact kfree_models h hp
  | ksize p => exact ksize_models h hp
  | read a => exact read_models h hp
  | write a v => exact write_models h v hp

/-- **A client.** -/
theorem client_models {α : Type} (x : Program HeapCall α) (h : Models s A)
    (hx : x.Obeys HeapCall.onArena HeapCall.Permitted A) :
    Agree Models Models (x.run HeapCall.onHeap s) (x.run HeapCall.onArena A) :=
  x.sim_obeys (fun _ e s t hR hP => call_models e s t hR hP) h hx

end Calls

theorem kheapInit_models {img : Image} {s s' : State Flat} (h : kheapInit img s = .ok () s') :
    Models s' HeapArena.empty :=
  ⟨[wholeHeap], (kheapInit_inv h).1, rfl, fun _ hx => by cases hx⟩

/-- **The heap is an arena.** After `kheap_init`, a client that frees and asks for the size of
only what it holds (or of nothing), stays inside it, and reads only what it wrote gets the same
answers from the heap as from an arena, and ends, with a value or in a panic, as it does there. -/
theorem heap_clients {img : Image} {s s' : State Flat} (h : kheapInit img s = .ok () s') {α : Type}
    (x : Program HeapCall α) (hx : x.Obeys HeapCall.onArena HeapCall.Permitted HeapArena.empty) :
    Agree Models Models ((kheapInit img >>= fun _ => x.run HeapCall.onHeap) s)
      (x.run HeapCall.onArena HeapArena.empty) := by
  rw [bind_of_ok h]
  exact client_models x (kheapInit_models h) hx

/-- A client that frees a block and takes a smaller one in its place, behind which it wrote a
word. -/
def reusingClient : Program HeapCall (Nat × Nat) := do
  let p ← .single (.kmalloc 32)
  let q ← .single (.kmalloc 8)
  .single (.write q 42)
  .single (.kfree p)
  let r ← .single (.kmalloc 20)
  let v ← .single (.read q)
  return (r, v)

theorem heap_clients_reuse : ∃ img s s', kheapInit img s = .ok () s' ∧
    Agree Models Models ((kheapInit img >>= fun _ => reusingClient.run HeapCall.onHeap) s)
      (reusingClient.run HeapCall.onArena HeapArena.empty) := by
  obtain ⟨s', ⟨img, s, hr, -⟩, -⟩ := heapStart_boot Image.readme Flat.blank
  exact ⟨img, s, s', hr, heap_clients hr reusingClient (by decide +kernel)⟩

end Kfs
