import Kfs.KHeapClient
import Kfs.KHeapOrder
import Kfs.KernelBoot
import Kfs.LineFrames

/-!
# The heap's tests leave no trace (`shell.c`)

`ktest` and `kmalloctest` allocate, write to what they got, ask for its size, and free it.
After each the heap is as it was before (`heap_tests_restore`): the list has the same
blocks, and the live ones the same bytes. Where they do not return, `kmalloc` panicked, and
that leaves the heap as it was as well.

A request past `0xFFFFFFF8` is rounded to 0 bytes, and the word that `ktest` writes may then
lie in the header behind; so its size has a bound.
-/

namespace Kfs

open Kfs.Lib

variable (cfg : Setup)

section Calls

variable {α β : Type} {s : State Flat} {A B : HeapArena} {n p : Nat}

/-- The outcome is a value or a panic, in a state that meets `P`. -/
def Leaves (P : State Flat → Prop) : EStateM.Result Stop (State Flat) α → Prop
  | .ok _ s => P s
  | .error e s => (∃ fmt args, e = .trap (.panic fmt args)) ∧ P s

theorem Leaves.mono {P Q : State Flat → Prop} (hPQ : ∀ s, P s → Q s)
    {r : EStateM.Result Stop (State Flat) α} (h : Leaves P r) : Leaves Q r := by
  cases r with
  | ok a s => exact hPQ s h
  | error e s => exact ⟨h.1, hPQ s h.2⟩

theorem Leaves.bind {P : State Flat → Prop} {x : Cmd Flat α} {f : α → Cmd Flat β}
    (hx : Leaves P (x.run (CmdOp.effect cfg) s))
    (hf : ∀ a s', P s' → Leaves P ((f a).run (CmdOp.effect cfg) s')) :
    Leaves P ((x >>= f).run (CmdOp.effect cfg) s) := by
  rw [Program.run_bind]
  cases hr : x.run (CmdOp.effect cfg) s with
  | ok a s' =>
    rw [hr] at hx
    rw [bind_of_ok hr]
    exact hf a s' hx
  | error e s' =>
    rw [hr] at hx
    rw [bind_of_error hr]
    exact hx

/-- The outcome is a value or a panic, and the heap holds what `A` does. -/
abbrev HeapKept (A : HeapArena) (r : EStateM.Result Stop (State Flat) α) : Prop :=
  Leaves (fun s => Models s A) r

theorem Models.covers (h : Models s B) (hc : B.Covers A) : Models s A := by
  obtain ⟨bs, hinv, hb, hw⟩ := h
  refine ⟨bs, hinv, hb.trans hc.blocks, fun x hx => ?_⟩
  obtain ⟨hwritten, hdata⟩ := hc.written x hx
  rw [hw x hwritten, hdata]

theorem kmalloc_kept (h : Models s A) {f : Nat → Cmd Flat α}
    (h0 : n = 0 → HeapKept A ((f 0).run (CmdOp.effect cfg) s))
    (hf : ∀ p s' A', n ≠ 0 → A.alloc 16 (round8 n) = some (p, A') → Models s' A' →
      HeapKept A ((f p).run (CmdOp.effect cfg) s')) :
    HeapKept A ((Cmd.memory (Kfs.kmalloc n) >>= f).run (CmdOp.effect cfg) s) := by
  by_cases hn : n = 0
  · subst hn
    rw [memory_bind_run cfg (show Kfs.kmalloc 0 s = .ok 0 s from rfl)]
    exact h0 rfl
  cases ha : A.alloc 16 (round8 n) with
  | none =>
    have hA : HeapCall.onArena _ (.kmalloc n) A =
        .error (.panic "kmalloc: out of memory! Requested %d bytes, heap full\n" [round8 n]) A := by
      simp only [HeapCall.onArena, if_neg hn, ha]
    obtain ⟨s', hk, h'⟩ := (kmalloc_models h n).error_right hA
    have hcall : (Cmd.memory (Kfs.kmalloc n) : Cmd Flat Nat).run (CmdOp.effect cfg) s =
        .error (.trap (.panic "kmalloc: out of memory! Requested %d bytes, heap full\n" [round8 n]))
          s' := by
      refine (congrFun (Program.run_single _ _) s).trans ?_
      show onState cfg (Kfs.kmalloc n) s = _
      unfold onState handled
      rw [hk]
    rw [Program.run_bind, bind_of_error hcall]
    exact ⟨⟨_, _, rfl⟩, h'⟩
  | some q =>
    have hA : HeapCall.onArena _ (.kmalloc n) A = .ok q.1 q.2 := by
      simp only [HeapCall.onArena, if_neg hn, ha]
    obtain ⟨s', hk, h'⟩ := (kmalloc_models h n).ok_right hA
    rw [memory_bind_run cfg hk]
    exact hf q.1 s' q.2 hn ha h'

theorem kfree_kept (h : Models s B) (hp : ∃ b ∈ B.blocks, b.addr = p)
    (hc : (B.release p).Covers A) :
    HeapKept A ((Cmd.memory (Kfs.kfree p) : Cmd Flat Unit).run (CmdOp.effect cfg) s) := by
  have hcall : HeapCall.Permitted _ (.kfree p) B := Or.inr hp
  obtain ⟨s', hk, h'⟩ := (kfree_models h hcall).ok_right
    (show HeapCall.onArena _ (.kfree p) B = .ok () (B.release p) from rfl)
  have hrun : (Cmd.memory (Kfs.kfree p) : Cmd Flat Unit).run (CmdOp.effect cfg) s = .ok () s' :=
    memory_run_of_ok cfg hk
  rw [hrun]
  exact h'.covers hc

/-- `ksize` with its messages answers what it answers without. -/
theorem ksize_run {z : Nat} {s' : State Flat} (h : Kfs.ksize p s = .ok z s') :
    (Cmd.ksize p : Cmd Flat Nat).run (CmdOp.effect cfg) s = .ok z s' := by
  unfold Kfs.ksize at h
  unfold Cmd.ksize
  split at h
  · next hp =>
    cases h
    rw [if_pos hp]
    rfl
  next hp =>
  rw [if_neg hp, memory_bind_run cfg
    (show (do return (← get).kheap : K Flat KHeap) s = .ok s.kheap s from rfl)]
  rw [get_bind_apply] at h
  dsimp only at h ⊢
  split at h
  · next hrange =>
    cases h
    rw [if_pos hrange]
    rfl
  next hrange =>
  rw [if_neg hrange]
  obtain ⟨magic, s₁, hld, h⟩ := bind_eq_ok.mp h
  rw [memory_bind_run cfg hld]
  split at h
  · next hmagic =>
    cases h
    rw [if_pos hmagic]
    rfl
  next hmagic =>
  rw [if_neg hmagic]
  obtain ⟨valid, s₂, hvalid, h⟩ := bind_eq_ok.mp h
  rw [memory_bind_run cfg hvalid]
  split at h
  · next hno =>
    cases h
    rw [if_pos hno]
    rfl
  next hno =>
  rw [if_neg hno]
  exact memory_run_of_ok cfg h

theorem ksize_kept (h : Models s B) (hp : ∃ b ∈ B.blocks, b.addr = p) {f : Nat → Cmd Flat α}
    (hf : ∀ z s', Models s' B → HeapKept A ((f z).run (CmdOp.effect cfg) s')) :
    HeapKept A ((Cmd.ksize p >>= f).run (CmdOp.effect cfg) s) := by
  have hcall : HeapCall.Permitted _ (.ksize p) B := Or.inr hp
  obtain ⟨s', hk, h'⟩ := (ksize_models h hcall).ok_right
    (show HeapCall.onArena _ (.ksize p) B = .ok (B.sizeOf p) B from rfl)
  rw [Program.run_bind, bind_of_ok (ksize_run cfg hk)]
  exact hf _ s' h'

theorem pmminfo_run (s : State Flat) :
    (Cmd.cmdPmminfo : Cmd Flat Unit).run (CmdOp.effect cfg) s = .ok () s := by
  unfold Cmd.cmdPmminfo
  rw [memory_bind_run cfg
    (show (Cmd.pmmTotalPages : K Flat Nat) s = .ok s.pmm.totalPages s from rfl),
    memory_bind_run cfg (show (Cmd.pmmFreePages : K Flat Nat) s = .ok s.pmm.freePages s from rfl)]
  rfl

end Calls

/-! ## The two tests -/

section Tests

variable {s : State Flat} {A : HeapArena} {n : Nat}

theorem sizeTest_kept (h : Models s A) {name sizeName : String} (hn : n ≠ 0) :
    HeapKept A ((Cmd.sizeTest name sizeName (fun n => Cmd.memory (Kfs.kmalloc n)) Cmd.ksize
      (fun p => Cmd.memory (Kfs.kfree p)) n).run (CmdOp.effect cfg) s) := by
  unfold Cmd.sizeTest
  refine kmalloc_kept cfg h (fun h0 => absurd h0 hn) fun p s₁ A' _ ha h₁ => ?_
  have hrel := Arena.release_alloc (by decide) ha
  obtain ⟨z, -, hm⟩ := place_large (Arena.alloc_inv ha).1
  rw [say_then]
  refine ksize_kept cfg h₁ ⟨_, hm, rfl⟩ fun got s₂ h₂ => ?_
  rw [say_then, Program.run_bind, bind_of_ok (pmminfo_run cfg s₂)]
  refine kfree_kept cfg h₂ ⟨_, hm, rfl⟩ ?_
  rw [hrel]
  exact ⟨rfl, fun _ hx => ⟨hx, rfl⟩⟩

theorem kmallocTest_kept (h : Models s A) :
    HeapKept A ((Cmd.cmdKmallocTest : Cmd Flat Unit).run (CmdOp.effect cfg) s) := by
  unfold Cmd.cmdKmallocTest
  rw [Program.run_bind, bind_of_ok (pmminfo_run cfg s)]
  exact .bind cfg (sizeTest_kept cfg h (by decide)) fun _ _ h' => sizeTest_kept cfg h' (by decide)

theorem ktest_kept (h : Models s A) {argv : List (List (BitVec 8))}
    (hn : Cmd.parseArg argv 1 ≤ 0xFFFFFFF8) :
    HeapKept A ((Cmd.cmdKtest argv : Cmd Flat Unit).run (CmdOp.effect cfg) s) := by
  unfold Cmd.cmdKtest Cmd.allocTest
  split
  · exact h
  refine kmalloc_kept cfg h (fun _ => h) fun p s₁ A' hne ha h₁ => ?_
  obtain ⟨z, hz, hm⟩ := place_large (Arena.alloc_inv ha).1
  have hp : p ≠ 0 := HeapArena.addr_ne_zero A' _ hm
  have hsize := round8_pos hne hn
  have hhas : A'.Has p := ⟨_, hm, Nat.le_refl p, by show p + 4 ≤ p + z; omega⟩
  rw [if_neg hp, say_then, say_then]
  -- the value is written to the first word of the block
  obtain ⟨v, hv⟩ : ∃ v, v = Cmd.parseArg argv 2 := ⟨_, rfl⟩
  have hcall : HeapCall.Permitted _ (.write p v) A' := hhas
  obtain ⟨s₂, hst, h₂⟩ := (write_models h₁ v hcall).ok_right
    (show HeapCall.onArena _ (.write p v) A' = .ok () (A'.store p v) from rfl)
  have hblock : ∃ b ∈ (A'.store p v).blocks, b.addr = p := by
    rw [Arena.store_blocks]
    exact ⟨_, hm, rfl⟩
  have hlt : p < 2 ^ 32 := by
    obtain ⟨bs, hinv, hb, -⟩ := h₁
    obtain ⟨-, -, -, -, -, hlt⟩ := hinv.word hb hhas
    exact hlt
  rw [← hv, memory_bind_run cfg hst, memory_bind_run cfg (ld_flat hlt s₂), say_then]
  refine ksize_kept cfg h₂ hblock fun got s₃ h₃ => ?_
  rw [say_then, say_then]
  exact .bind cfg (kfree_kept cfg h₃ hblock (Arena.covers_store (by decide) ha _)) fun _ _ h' => h'

end Tests

/-! ## What is restored -/

/-- The heap's list is as it was, and so are the bytes of the live blocks. -/
structure Restored (x : HeapSys) (s : State Flat) : Prop where
  listing : ∃ ts, Listing x.st ts ∧ Listing s ts
  payload : ∀ p ∈ x.live, ∀ a, p ≤ a → a < p + x.sizeOf p → s.mem.data a = x.st.mem.data a

/-- The arena of a heap, with all that is in the blocks. -/
def arenaOf {s : State Flat} {bs : List Blk} (h : HeapInv s bs) : HeapArena where
  blocks := heldOf headerSize bs
  ordered := held_ordered h.tiled
  data := s.mem.data
  written x := (heldOf headerSize bs).any fun p => p.Has x 1
  held x hx := by
    obtain ⟨p, hp, hx⟩ := List.any_eq_true.mp hx
    exact ⟨p, hp, of_decide_eq_true hx⟩

theorem arenaOf_models {s : State Flat} {bs : List Blk} (h : HeapInv s bs) : Models s (arenaOf h) :=
  ⟨bs, h, rfl, fun _ _ => rfl⟩

theorem Models.restored {x : HeapSys} {s : State Flat} {bs : List Blk} (h : HeapInv x.st bs)
    (hl : LiveOf x.live bs) (hs : Models s (arenaOf h)) : Restored x s := by
  obtain ⟨cs, hinv, hb, hw⟩ := hs
  have hcs : cs = bs :=
    heldOf_determined (by decide) hinv.tiled h.tiled hinv.coalesced h.coalesced hb
  subst hcs
  refine ⟨⟨_, h.listing, hinv.listing⟩, fun p hp a h1 h2 => hw a ?_⟩
  obtain ⟨b, hm, hf, rfl⟩ := (hl p).mp hp
  rw [show x.sizeOf (b.addr + 16) = b.size from h.header_size hm] at h2
  exact List.any_eq_true.mpr ⟨⟨b.addr + 16, b.size⟩, mem_heldOf.mpr ⟨b, hm, hf, rfl⟩,
    decide_eq_true ⟨h1, h2⟩⟩

/-- **The tests leave no trace.** In whatever state of the heap they are run, with whatever
arguments but a size that rounds to 0: they return or panic, and the heap is as it was. -/
theorem heap_tests_restore {x : HeapSys} (h : Reach HeapStart HeapStep x)
    (argv : List (List (BitVec 8))) {cmd : ShellCommand}
    (hc : cmd = .kmalloctest ∨ cmd = .ktest ∧ Cmd.parseArg argv 1 ≤ 0xFFFFFFF8) :
    Leaves (Restored x)
      ((Cmd.function cfg.img cfg.build argv cmd).run (CmdOp.effect cfg) x.st) := by
  obtain ⟨bs, hinv, hl⟩ := heapReach_ok h
  have hmodels := arenaOf_models hinv
  rcases hc with rfl | ⟨rfl, hn⟩
  · exact (kmallocTest_kept cfg hmodels).mono fun _ hs => hs.restored hinv hl
  · exact (ktest_kept cfg hmodels hn).mono fun _ hs => hs.restored hinv hl

/-- `ktest 16 7` behind a live block. -/
theorem heap_tests_restore_ktest : ∃ x, Reach HeapStart HeapStep x ∧ x.live = {0x200010} ∧
    Leaves (Restored x)
      ((Cmd.function Setup.readme.img Setup.readme.build
      [bytesOf "ktest", bytesOf "16", bytesOf "7"]
      .ktest).run (CmdOp.effect Setup.readme) x.st) := by
  obtain ⟨x, hx, hlive, -⟩ := heapRun_kmalloc
  exact ⟨x, hx, hlive, heap_tests_restore Setup.readme hx _ (.inr ⟨rfl, by decide +kernel⟩)⟩

end Kfs
