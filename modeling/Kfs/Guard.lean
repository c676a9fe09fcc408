import Kfs.Lib.Program
import Kfs.MmuRun

/-!
# Memory that guards the kernel's own

Below the heap lie the screen's text memory, the descriptor tables and the kernel image with
its variables: the screens, the keyboard's and the shell's, the bitmap of frames, the page
directory. All of it is mapped and writable. The model keeps the screen, the table of gates
and the variables in stores of their own, but in the source a stray pointer gets there:
`ktest` of a size that rounds to 0 writes its value over the header behind, and the next
split of that block goes where the value says.

`Guarded` memory stops the kernel at the first such access. So what is proved of a kernel on
guarded memory needs no condition on the commands: it holds up to there. Start-up makes no
such access (`memoryInit_guarded`).
-/

namespace Kfs

open Kfs.Lib

/-! ## The kernel's own memory -/

/-- Where video memory begins. Below it is memory that the loader leaves. -/
@[simp] def videoStart : Nat := 0xA0000

/-- How the bytes of memory are found. -/
class Physical (M : Type) where
  /-- The physical address of the byte at `v`. -/
  translate : M → Bool → Nat → Except Trap Nat

instance : Physical Flat := ⟨fun _ _ v => .ok v⟩

instance : Physical Mmu := ⟨Mmu.translate⟩

variable {M : Type} [Physical M]

/-- The byte at `v` is the kernel's own: below the heap nothing else is written, and from
video memory on nothing else is read. -/
def ownByte (m : M) (write : Bool) (v : Nat) : Bool :=
  match Physical.translate m write v with
  | .ok p => p < kheapStart && (write || videoStart ≤ p)
  | .error _ => false

/-- A byte of the word at `a` is the kernel's own. -/
def stray (m : M) (write : Bool) (a : Nat) : Bool :=
  (List.range 4).any fun i => ownByte m write ((a + i) % 2 ^ 32)

/-- `M`, where data accesses to the kernel's own memory stop the kernel. -/
structure Guarded (M : Type) where
  mem : M

instance [Bus M] : Bus (Guarded M) where
  load g
    | .data a => if stray g.mem false a then .error (.strayAccess a) else Bus.load g.mem (.data a)
    | .table a => Bus.load g.mem (.table a)
  store g
    | .data a, v =>
      if stray g.mem true a then .error (.strayAccess a) else (Bus.store g.mem (.data a) v).map .mk
    | .table a, v => (Bus.store g.mem (.table a) v).map .mk
  readCr0 g := Bus.readCr0 g.mem
  writeCr0 g v := ⟨Bus.writeCr0 g.mem v⟩
  loadCr3 g v := ⟨Bus.loadCr3 g.mem v⟩

omit [Physical M] in
def State.guarded (s : State M) : State (Guarded M) := ⟨s.pmm, s.kheap, s.vmem, ⟨s.mem⟩⟩

/-! ## Code that does not follow pointers to data -/

/-- On guarded memory `y` does what `x` does on the memory that is guarded. -/
abbrev Lifts {α : Type} (x : K M α) (y : K (Guarded M) α) : Prop :=
  Sim (fun s g => g = s.guarded) (fun _ _ => True) x y

section Lifts

omit [Physical M]

theorem throw_lifts {α : Type} (e : Trap) : Lifts (throw e : K M α) (throw e) :=
  .throw fun _ _ _ => trivial

theorem modify_lifts {f : State M → State M} {g : State (Guarded M) → State (Guarded M)}
    (hf : ∀ s, g s.guarded = (f s).guarded) : Lifts (modify f : K M _) (modify g) := by
  rintro s _ rfl
  exact .ok (hf s)

theorem bitmapGet_lifts (i : Nat) : Lifts (bitmapGet i : K M _) (bitmapGet i) := by
  rintro s _ rfl
  unfold bitmapGet
  rw [get_bind_apply, get_bind_apply]
  split
  · exact .ok rfl
  · exact .error trivial

theorem bitmapSet_lifts (i : Nat) (w : BitVec 32) :
    Lifts (bitmapSet i w : K M _) (bitmapSet i w) := by
  rintro s _ rfl
  unfold bitmapSet
  split
  · exact .ok rfl
  · exact .error trivial

theorem setBit_lifts (i : Nat) : Lifts (setBit i : K M _) (setBit i) :=
  .bind (bitmapGet_lifts _) fun _ => bitmapSet_lifts _ _

theorem clrBit_lifts (i : Nat) : Lifts (clrBit i : K M _) (clrBit i) :=
  .bind (bitmapGet_lifts _) fun _ => bitmapSet_lifts _ _

theorem tstBit_lifts (i : Nat) : Lifts (tstBit i : K M _) (tstBit i) :=
  .bind (bitmapGet_lifts _) fun _ => .pure _

theorem incFreePages_lifts : Lifts (incFreePages : K M _) incFreePages := modify_lifts fun _ => rfl

theorem decFreePages_lifts : Lifts (decFreePages : K M _) decFreePages := modify_lifts fun _ => rfl

theorem pmmInit_lifts (n : Nat) : Lifts (pmmInit n : K M _) (pmmInit n) := by
  refine .bind (modify_lifts fun _ => rfl) fun _ => .ite (throw_lifts _) ?_
  refine .bind (modify_lifts fun _ => rfl) fun _ =>
    .bind (.forUp (fun i => bitmapSet_lifts i _) _ _) fun _ =>
    .bind (.forUp (fun i => .bind (clrBit_lifts i) fun _ => incFreePages_lifts) _ _) fun _ =>
      .forUp (fun i => .bind (tstBit_lifts i) fun _ => .ite ?_ (.pure _)) _ _
  exact .bind (setBit_lifts i) fun _ => decFreePages_lifts

theorem pmmAllocPage_lifts : Lifts (pmmAllocPage : K M _) pmmAllocPage := by
  rintro s _ rfl
  unfold pmmAllocPage
  rw [get_bind_apply, get_bind_apply]
  have hfind := Sim.findUp (R := fun s g => g = s.guarded) (Q := fun _ _ => True)
    (f := fun i => (do return !(← tstBit i) : K M Bool)) (g := fun i => do return !(← tstBit i))
    (fun i => .bind (tstBit_lifts i) fun _ => .pure _) 0 s.pmm.totalPages
  refine (hfind s s.guarded rfl).bind fun r s' g' hw => ?_
  cases r with
  | none => exact .error trivial
  | some i =>
    exact Sim.bind (setBit_lifts i) (fun _ => .bind decFreePages_lifts fun _ => .pure _) _ _ hw

end Lifts

section Tables

variable [Bus M] (img : Image)

theorem ldTable_lifts (a : Nat) : Lifts (ldTable a : K M _) (ldTable a) := by
  rintro s _ rfl
  have hload : Bus.load s.guarded.mem (.table a) = Bus.load s.mem (.table a) := rfl
  unfold ldTable loadAt
  rw [hload]
  cases Bus.load s.mem (.table a) with
  | ok v => exact .ok rfl
  | error e => exact .error trivial

theorem stTable_lifts (a v : Nat) : Lifts (stTable a v : K M _) (stTable a v) := by
  rintro s _ rfl
  have hstore : Bus.store s.guarded.mem (.table a) v = (Bus.store s.mem (.table a) v).map .mk := rfl
  unfold stTable storeAt
  rw [hstore]
  cases Bus.store s.mem (.table a) v with
  | ok m => exact .ok rfl
  | error e => exact .error trivial

theorem pagingInit_lifts : Lifts (pagingInit img : K M _) (pagingInit img) := by
  refine .bind (.forUp (fun i => stTable_lifts _ _) _ _) fun _ =>
    .bind (.forUp (fun t => ?_) _ _) fun _ => ?_
  · exact .bind (.forUp (fun i => stTable_lifts _ _) _ _) fun _ => stTable_lifts _ _
  · rintro s _ rfl
    exact .ok rfl

theorem pagingEnable_lifts : Lifts (pagingEnable : K M _) pagingEnable := by
  rintro s _ rfl
  exact .ok rfl

theorem virtToPte_lifts (v : Nat) (create : Bool) :
    Lifts (virtToPte img v create : K M _) (virtToPte img v create) := by
  refine .bind (ldTable_lifts _) fun pde => .ite (.ite (.pure _) ?_) (.pure _)
  refine .bind (.bind pmmAllocPage_lifts fun t => ?_) fun _ =>
    .bind (ldTable_lifts _) fun _ => .pure _
  exact .bind (.forUp (fun i => stTable_lifts _ _) _ _) fun _ => stTable_lifts _ _

theorem vmmMapPage_lifts (v phys flags : Nat) :
    Lifts (vmmMapPage img v phys flags : K M _) (vmmMapPage img v phys flags) :=
  .bind (virtToPte_lifts img v true) fun _ => .ite (.pure _)
    (.bind (stTable_lifts _ _) fun _ => .pure _)

theorem kheapMap_lifts : Lifts (kheapMap img : K M _) (kheapMap img) := by
  refine .forUp (fun i => .bind pmmAllocPage_lifts fun phys => ?_) _ _
  refine .ite (.bind (throw_lifts _) fun _ => ?_) ?_ <;>
    exact .bind (vmmMapPage_lifts img _ _ _) fun _ => .ite (throw_lifts _) (.pure _)

end Tables

/-! ## Start-up -/

section Start

variable {img : Image}

/-- The states compared, with the first 12 MB mapped to themselves. -/
def AtIdentity (img : Image) (s : State Mmu) (g : State (Guarded Mmu)) : Prop :=
  g = s.guarded ∧ Walking img s.mem ∧ IdentityTables img s.mem.phys

theorem st_lifts {a : Nat} (hlo : kheapStart ≤ a) (hhi : a + 4 ≤ 0xC00000) (v : Nat) :
    Sim (AtIdentity img) (fun _ _ => True) (st a v) (st a v) := by
  have hpd := img.pdHi
  have hpt := img.ptHi
  simp only [kheapStart] at hlo
  rintro s _ ⟨rfl, hw, hid⟩
  have hmod : a % 2 ^ 32 = a := Nat.mod_eq_of_lt (by omega)
  have hown : stray s.mem true a = false := by
    refine List.any_eq_false.mpr fun i hi => ?_
    have := List.mem_range.mp hi
    have htr : Physical.translate s.mem true ((a + i) % 2 ^ 32) = .ok (a + i) := by
      rw [Nat.mod_eq_of_lt (by omega)]
      exact hw.translate_low hid (by omega) true
    unfold ownByte
    rw [htr]
    show ¬ (decide (a + i < kheapStart) && (true || decide (videoStart ≤ a + i))) = true
    rw [Bool.true_or, Bool.and_true, decide_eq_true_eq]
    simp only [kheapStart]
    omega
  have hrun : st a v s = .ok () (s.setPhys (store32 s.mem.phys a v)) := by
    unfold st
    rw [hmod]
    exact storeAt_mmu (.inl rfl) (by omega) (fun i _ => hw.translate_low hid (by omega) true) v
  have hguard : st a v s.guarded = .ok () (s.setPhys (store32 s.mem.phys a v)).guarded := by
    have hword := Mmu.storeWord_eq (m := s.mem) (a := a) (by omega)
      (fun i _ => hw.translate_low hid (by omega) true) v
    have hstore : Bus.store s.guarded.mem (.data a) v = (s.mem.storeWord a v).map .mk :=
      if_neg (by rw [show stray s.guarded.mem.mem true a = false from hown]; decide)
    unfold st storeAt
    rw [hmod, hstore, hword]
    rfl
  refine .of_ok hrun hguard ⟨rfl, ⟨hw.on, hw.cr3⟩, hid.congr fun x hx => ?_⟩
  exact store32_other (by rcases hx with hx | hx <;> omega)

/-- `kheap_init` writes the first header of the heap, and nothing else through a pointer. -/
theorem kheapInit_guarded {s : State Mmu} (h : WalkInv img s 256 none) :
    ∃ g, kheapInit img s.guarded = .ok () g := by
  have h' : WalkInv img { s with kheap := ⟨kheapStart, kheapSize, 0, 0⟩ } 256 none :=
    h.congr rfl rfl
  obtain ⟨p, hmap, -⟩ := kheapMap_low h'
  have hrun := kheapInit_low hmap h.walking h.tables.low
  obtain ⟨_, hg, rfl⟩ :=
    (kheapMap_lifts img _ { s.guarded with kheap := ⟨kheapStart, kheapSize, 0, 0⟩ } rfl).ok_left
    hmap
  have hagree :
      Agree (AtIdentity img) (fun _ _ => True) (kheapInit img s) (kheapInit img s.guarded) := by
    have hst : ∀ {i v}, i < 16 → Sim (AtIdentity img) (fun _ _ => True) (st (kheapStart + i) v)
        (st (kheapStart + i) v) :=
          fun hi => st_lifts (Nat.le_add_right _ _) (by simp only [kheapStart]; omega) _
    unfold kheapInit
    rw [modify_bind_apply, modify_bind_apply, bind_of_ok hmap, bind_of_ok hg,
      modify_bind_apply, modify_bind_apply, get_bind_apply, get_bind_apply]
    exact Sim.bind (hst (i := 0) (by decide))
      (fun _ => .bind (hst (by decide)) fun _ => hst (by decide)) _ _
      ⟨rfl, h.walking, h.tables.low⟩
  obtain ⟨g, hg, -⟩ := hagree.ok_left hrun
  exact ⟨g, hg⟩

/-- **`memory_init`** makes no stray access. -/
theorem memoryInit_guarded (img : Image) {m : Mmu} (hoff : m.pagingOn = false) :
    ∃ g, memoryInit img pmmMaxBytes (State.boot (Guarded.mk m)) = .ok () g := by
  obtain ⟨s, hr, hinv, -⟩ := beforeKheap_low img hoff
  have hlift : Lifts (do pmmInit pmmMaxBytes; pagingInit img; pagingEnable : K Mmu Unit)
      (do pmmInit pmmMaxBytes; pagingInit img; pagingEnable) :=
    .bind (pmmInit_lifts _) fun _ => .bind (pagingInit_lifts img) fun _ => pagingEnable_lifts
  obtain ⟨_, hg, rfl⟩ := (hlift _ (State.boot (Guarded.mk m)) rfl).ok_left hr
  rw [memoryInit_of_before hg]
  exact kheapInit_guarded hinv

end Start

end Kfs
