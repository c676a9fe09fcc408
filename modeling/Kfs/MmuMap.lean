import Kfs.Isolation
import Kfs.MmuRun
import Kfs.Lib.Program

/-!
# What the hardware makes of the page tables

`pageTables_flat_map` is about tables in a store of their own. Here they lie in the physical
memory that the hardware walks, and `virt_to_pte` reaches them through the mapping that
they hold. While only pages above the first 12 MB are mapped and unmapped, that makes no
difference: the code on `Mmu` runs as it does on `Flat`, with physical memory for the store
(`Behind`, `vmmMapPage_behind`). So each access of the hardware is decided by the last
call about its page (`hardware_flat_map`), and a page fault by its flags.
-/

namespace Kfs

open Kfs.Lib

variable {img : Image}

/-! ## One memory -/

/-- The bytes that map the first 12 MB. -/
def LowTables (img : Image) (x : Nat) : Prop :=
  img.pageDirectory ≤ x ∧ x < img.pageDirectory + 12 ∨
    img.pageTables ≤ x ∧ x < img.pageTables + 3 * 4096

theorem IdentityTables.congr_low {t t' : Mem} (h : IdentityTables img t)
    (ht : ∀ x, LowTables img x → t' x = t x) :
    IdentityTables img t' where
  pde i hi := by
    rw [← h.pde i hi]
    exact load32_congr fun x h1 h2 => ht x (.inl ⟨by omega, by omega⟩)
  pte i j hi hj := by
    rw [← h.pte i j hi hj]
    exact load32_congr fun x h1 h2 => ht x (.inr ⟨by omega, by omega⟩)

/-- The page-table store of `f` is the physical memory behind `s`. -/
structure Behind (img : Image) (s : State Mmu) (f : State Flat) : Prop where
  walking : Walking img s.mem
  low : IdentityTables img s.mem.phys
  table : f.mem.table = s.mem.phys
  pmm : f.pmm = s.pmm
  cr0 : f.mem.cr0 = s.mem.cr0

/-- A word that no low table holds, reachable below 12 MB. -/
def Reachable12 (img : Image) (a : Nat) : Prop :=
  a + 4 ≤ 0xC00000 ∧ ∀ x, a ≤ x → x < a + 4 → ¬ LowTables img x

section Behind

variable {s : State Mmu} {f : State Flat} (h : Behind img s f)
include h

theorem stTable_behind {a : Nat} (ha : Reachable12 img a) (v : Nat) :
    Agree (Behind img) (Behind img) (stTable a v s) (stTable a v f) := by
  rw [stTable_low h.walking h.low ha.1, stTable_flat, h.table]
  refine .ok ⟨⟨h.walking.on, h.walking.cr3⟩, h.low.congr_low fun x hx => ?_, rfl, h.pmm, h.cr0⟩
  exact store32_other (by
    by_contra hin
    exact ha.2 x (by omega) (by omega) hx)

theorem Behind.readsPde {v : Nat} (hv : v < 2 ^ 32) : ReadsPde img s f.mem.table v := by
  rw [h.table]
  exact readsPde_low h.walking h.low hv

end Behind

theorem reachable_frame {k i : Nat} (hk : 256 ≤ k) (hk' : k < 2304) (hi : i < 1024) :
    Reachable12 img (pmmStart + k * pageSize + 4 * i) := by
  have hpd := img.pdHi
  have hpt := img.ptHi
  simp only [Reachable12, LowTables, pmmStart, pageSize]
  exact ⟨by omega, fun x h1 h2 => by omega⟩

theorem reachable_slot {i : Nat} (h3 : 3 ≤ i) (hi : i < 1024) :
    Reachable12 img (img.pageDirectory + 4 * i) := by
  have hpd := img.pdHi
  have hpt := img.ptHi
  have hap := img.apart
  simp only [Reachable12, LowTables]
  exact ⟨by omega, fun x h1 h2 => by omega⟩

theorem PagingInv.reachable {f : State Flat} (hinv : PagingInv img f) {v : Nat} (hv : v < 2 ^ 32)
    (h3 : 3 ≤ pdIndex v) (hp : Present img f.mem.table (pdIndex v)) :
    Reachable12 img (tableOf img f.mem.table (pdIndex v) + 4 * ptIndex v) := by
  have htot := hinv.pmm.total
  cases hinv.own _ (pdIndex_lt hv) hp with
  | static hlow _ => omega
  | frame k _ hk hk' _ hT =>
    rw [hT]
    exact reachable_frame hk (by omega) (ptIndex_lt v)

/-! ## The functions of `paging.c` -/

section Paging

variable {s : State Mmu} {f : State Flat} (h : Behind img s f) (hinv : PagingInv img f)
include h hinv

theorem pmmAllocPage_behind :
    Agree (Behind img) (Behind img) (pmmAllocPage s) (pmmAllocPage f) := by
  have hs : s.pmm.Inv := h.pmm ▸ hinv.pmm
  rcases pmmAllocPage_spec hinv.pmm with ⟨k, hk, hb, hmin, hr⟩ | ⟨hall, hr⟩
  · rw [h.pmm] at hk hb hmin
    rw [hr, pmmAllocPage_lowest hs hk hb hmin]
    exact .ok ⟨h.walking, h.low, h.table, by rw [h.pmm], h.cr0⟩
  · rw [h.pmm] at hall
    rw [hr, pmmAllocPage_full hs hall]
    exact .error h

theorem newPageTable_behind {v : Nat} (hv : v < 2 ^ 32) (h3 : 3 ≤ pdIndex v) :
    Agree (Behind img) (Behind img) (newPageTable img v (pdIndex v) s)
      (newPageTable img v (pdIndex v) f) := by
  have hi := pdIndex_lt hv
  have halloc := pmmAllocPage_behind h hinv
  unfold newPageTable
  rcases pmmAllocPage_spec hinv.pmm with ⟨k, hk, hb, -, hr⟩ | ⟨-, hr⟩
  · have hk256 : 256 ≤ k := by
      by_contra hlt
      rw [hinv.reserved k (by omega)] at hb
      cases hb
    have htot := hinv.pmm.total
    rw [hr] at halloc
    obtain ⟨_, s₁, f₁, hs, hf, h₁⟩ | ⟨_, _, _, _, hf, -⟩ := halloc.inv
    · cases hf
      rw [bind_of_ok hs, bind_of_ok hr]
      refine (Agree.forUp h₁ fun i s' f' _ hi h' => ?_).bind fun _ s' f' h' => ?_
      · exact stTable_behind h' (reachable_frame hk256 (by omega) (by omega)) 0
      · exact stTable_behind h' (reachable_slot h3 hi) _
    · cases hf
  · rw [hr] at halloc
    obtain ⟨_, _, _, _, hf, -⟩ | ⟨_, s₁, f₁, hs, hf, h₁⟩ := halloc.inv
    · cases hf
    · cases hf
      rw [bind_of_error hs, bind_of_error hr]
      exact .error h₁

theorem setEntry_behind {v : Nat} (hv : v < 2 ^ 32) (h3 : 3 ≤ pdIndex v)
    (hp : Present img f.mem.table (pdIndex v)) (e : Nat) :
    Agree (Behind img) (Behind img)
      (stTable (tableOf img f.mem.table (pdIndex v) + 4 * ptIndex v) e s)
      (stTable (tableOf img f.mem.table (pdIndex v) + 4 * ptIndex v) e f) :=
  stTable_behind h (hinv.reachable hv h3 hp) e

/-- **`vmm_map_page`** above 12 MB. -/
theorem vmmMapPage_behind {v : Nat} (hv : v < 2 ^ 32) (h3 : 3 ≤ pdIndex v) (phys flags : Nat) :
    Agree (Behind img) (Behind img) (vmmMapPage img v phys flags s)
      (vmmMapPage img v phys flags f) := by
  by_cases hp : Present img f.mem.table (pdIndex v)
  · have hlo := (hinv.range (pdIndex_lt hv) hp).1
    rw [vmmMapPage_walk phys flags (virtToPte_present hv (h.readsPde hv) hp true) (by omega),
      vmmMapPage_walk phys flags (virtToPte_present hv (readsPde_flat f v) hp true) (by omega)]
    exact (setEntry_behind h hinv hv h3 hp _).bind fun _ s' f' h' => .ok h'
  have hnew := newPageTable_behind h hinv hv h3
  have hs := virtToPte_create hv (h.readsPde hv) hp
  have hf := virtToPte_create hv (readsPde_flat f v) hp
  rcases newPageTable_spec hinv hv hp with
    ⟨k, t, -, -, -, hr, hinv₁, hpres, -⟩ | ⟨-, hr⟩
  · obtain ⟨f₁, hf₁⟩ : ∃ f₁ : State Flat, f₁ = { f.setTable t with pmm := f.pmm.take k } := ⟨_, rfl⟩
    rw [← hf₁] at hr hinv₁
    have hpres₁ : Present img f₁.mem.table (pdIndex v) := by
      rw [hf₁]
      exact hpres
    rw [hr] at hnew
    obtain ⟨_, s₁, _, hsnew, hfnew, h₁⟩ | ⟨_, _, _, _, hfnew, -⟩ := hnew.inv
    swap
    · cases hfnew
    cases hfnew
    have hlo := (hinv₁.range (pdIndex_lt hv) hpres₁).1
    have hws :
        virtToPte img v true s = .ok (tableOf img f₁.mem.table (pdIndex v) + 4 * ptIndex v) s₁ := by
      rw [hs, bind_of_ok hsnew, bind_of_ok (h₁.readsPde hv), tableOf_eq]
      rfl
    have hwf :
        virtToPte img v true f = .ok (tableOf img f₁.mem.table (pdIndex v) + 4 * ptIndex v) f₁ := by
      rw [hf, bind_of_ok hr, bind_of_ok (readsPde_flat f₁ v), tableOf_eq]
      rfl
    rw [vmmMapPage_walk phys flags hws (by omega), vmmMapPage_walk phys flags hwf (by omega)]
    exact (setEntry_behind h₁ hinv₁ hv h3 hpres₁ _).bind fun _ s' f' h' => .ok h'
  · rw [hr] at hnew
    obtain ⟨_, _, _, _, hfnew, -⟩ | ⟨_, s₁, _, hsnew, hfnew, h₁⟩ := hnew.inv
    · cases hfnew
    cases hfnew
    unfold vmmMapPage
    rw [bind_of_error (hs.trans (bind_of_error hsnew)), bind_of_error (hf.trans (bind_of_error hr))]
    exact .error h₁

/-- **`vmm_unmap_page`** above 12 MB. -/
theorem vmmUnmapPage_behind {v : Nat} (hv : v < 2 ^ 32) (h3 : 3 ≤ pdIndex v) :
    Agree (Behind img) (Behind img) (vmmUnmapPage img v s) (vmmUnmapPage img v f) := by
  by_cases hp : Present img f.mem.table (pdIndex v)
  · have hlo := (hinv.range (pdIndex_lt hv) hp).1
    rw [vmmUnmapPage_walk (virtToPte_present hv (h.readsPde hv) hp false) (by omega),
      vmmUnmapPage_walk (virtToPte_present hv (readsPde_flat f v) hp false) (by omega)]
    exact setEntry_behind h hinv hv h3 hp 0
  · unfold vmmUnmapPage
    rw [bind_of_ok (virtToPte_absent hv (h.readsPde hv) hp),
      bind_of_ok (virtToPte_absent hv (readsPde_flat f v) hp)]
    exact .ok h

end Paging

/-! ## Runs -/

def MapOp.call {M : Type} [Bus M] (img : Image) : MapOp → K M Unit
  | .map v p f => do let _ ← vmmMapPage img v p f
  | .unmap v => vmmUnmapPage img v

def callMaps {M : Type} [Bus M] (img : Image) : List MapOp → K M Unit
  | [] => pure ()
  | op :: ops => do
    op.call img
    callMaps img ops

/-- The call is about a page above the first 12 MB. -/
def MapOp.High (op : MapOp) : Prop := 0xC00000 ≤ op.virt ∧ op.virt < 2 ^ 32

instance (op : MapOp) : Decidable op.High := inferInstanceAs (Decidable (_ ∧ _))

theorem pdIndex_high {v : Nat} (h : 0xC00000 ≤ v) : 3 ≤ pdIndex v := by
  unfold pdIndex
  omega

variable (img) in
/-- The directory never takes the right to write away. -/
def SlotsWritable (t : Mem) : Prop :=
  ∀ i, i < 1024 → Present img t i → HasFlags (pdeAt img t i) pageWrite

theorem newPde_writable (T v : Nat) : HasFlags (newPde T v) pageWrite := by
  have hw : HasFlags (T ||| pagePresent ||| pageWrite) pageWrite := HasFlags.or_right (by decide) _
  exact hw.or_left _

theorem InitialTables.slotsWritable {t : Mem} (h : InitialTables img t) : SlotsWritable img t := by
  intro i hi hp
  have hal := img.ptAligned
  rw [h.pde i hi, if_pos ((h.present hi).mp hp)]
  rw [show img.pageTables + 4096 * i + 3 = (img.pageTables + 4096 * i) ||| 1 ||| pageWrite by
    rw [Nat.or_assoc]
    exact (or_flags _ _ (by omega) (by decide)).symm]
  exact HasFlags.or_right (by decide) _

/-- **The machine with its tables in order**: what the flat map says of the store of `f`, the
hardware does in `s`. -/
structure HardwareInv (img : Image) (s : State Mmu) (f : State Flat) : Prop where
  behind : Behind img s f
  inv : PagingInv img f
  writable : SlotsWritable img f.mem.table
  protect : s.mem.writeProtect = true

section Run

theorem MapOp.run_cr0 {f f' : State Flat} (h : PagingInv img f)
    {op : MapOp} (hop : op.virt < 2 ^ 32)
    (hr : op.run img f = .ok () f') : f'.mem.cr0 = f.mem.cr0 := by
  cases op with
  | map v phys flags =>
    have hop : v < 2 ^ 32 := hop
    obtain ⟨r, f₁, hm, hr⟩ := bind_eq_ok.mp hr
    cases hr
    rcases vmmMapPage_spec h phys flags hop with ⟨-, t, he, -⟩ |
      ⟨-, k, t, -, -, -, he, -⟩ | ⟨-, -, he⟩ <;>
      rw [he] at hm <;> cases hm <;> rfl
  | unmap v =>
    have hop : v < 2 ^ 32 := hop
    obtain ⟨t, he, -⟩ := vmmUnmapPage_spec h hop
    rw [show (MapOp.unmap v).run img f = _ from he] at hr
    cases hr
    rfl

/-- **One call** does on the machine what it does to the flat map. -/
theorem HardwareInv.call {s : State Mmu} {f : State Flat} (h : HardwareInv img s f)
    {op : MapOp} (hop : op.High) :
    Agree (HardwareInv img) (Behind img) (op.call img s) (op.run img f) := by
  have hcall : Agree (Behind img) (Behind img) (op.call img s) (op.run img f) := by
    cases op with
    | map v phys flags =>
      exact (vmmMapPage_behind h.behind h.inv hop.2 (pdIndex_high hop.1) phys flags).bind
        fun _ _ _ h' => .ok h'
    | unmap v => exact vmmUnmapPage_behind h.behind h.inv hop.2 (pdIndex_high hop.1)
  obtain ⟨_, s', f', hs, hf, h'⟩ | ⟨e, s', f', hs, hf, h'⟩ := hcall.inv
  swap
  · exact .of_error hs hf h'
  have hcr0 : s'.mem.cr0 = s.mem.cr0 := by
    rw [← h'.cr0, MapOp.run_cr0 h.inv hop.2 hf, h.behind.cr0]
  have hprotect : s'.mem.writeProtect = true := by
    unfold Mmu.writeProtect
    rw [hcr0]
    exact h.protect
  refine .of_ok hs hf ⟨h', (MapOp.run_spec h.inv hop.2 hf).1, fun i hi hp => ?_, hprotect⟩
  obtain he | ⟨-, -, T, he⟩ := MapOp.run_pde h.inv hop.2 hf hi
  · rw [he]
    exact h.writable i hi ((present_congr he).mp hp)
  · rw [he]
    exact newPde_writable T _

/-- **A run of calls** does so too. -/
theorem HardwareInv.calls :
    ∀ {ops : List MapOp} {s : State Mmu} {f : State Flat}, HardwareInv img s f →
    (∀ op ∈ ops, op.High) → Agree (HardwareInv img) (Behind img)
    (callMaps img ops s) (runMaps img ops f)
  | [], _, _, h, _ => .ok h
  | op :: _, _, _, h, hops => (h.call (hops op List.mem_cons_self)).bind fun _ _ _ h' =>
    HardwareInv.calls h' fun o ho => hops o (List.mem_cons_of_mem _ ho)

end Run

/-! ## The hardware's accesses -/

/-- What the hardware makes of an access to `a` whose page has the entry `e`. -/
def accessOf (e : Nat) (write : Bool) (a : Nat) : Except Trap Nat :=
  if e &&& pagePresent = 0 then .error (.pageFault a)
  else if write ∧ e &&& pageWrite = 0 then .error (.pageFault a)
  else .ok ((e &&& 0xFFFFF000) + (a &&& 0xFFF))

/-- **The entry decides**: an access goes through if and only if the flat map lets it. -/
theorem HardwareInv.translate {s : State Mmu} {f : State Flat} (h : HardwareInv img s f)
    {a : Nat} (ha : a < 2 ^ 32) (write : Bool) :
    s.mem.translate write a = accessOf (entryAt img f.mem.table a) write a := by
  have hw := h.behind.walking
  have hi := pdIndex_lt ha
  unfold Mmu.translate accessOf
  simp only [hw.on, Bool.not_true, Bool.false_eq_true, ↓reduceIte,
    hw.dirEntry, pdIndex_eq ha, hw.pteAddr ha,
    ← h.behind.table, h.protect, Bool.and_true, and_pagePresent]
  unfold entryAt
  by_cases hp : Present img f.mem.table (pdIndex a)
  · have hp' : ¬ pdeAt img f.mem.table (pdIndex a) % 2 = 0 := by
      unfold Present at hp
      omega
    have hpde : pdeAt img f.mem.table (pdIndex a) &&& pageWrite ≠ 0 := by
      rw [h.writable _ hi hp]
      decide
    rw [if_neg hp', if_pos hp]
    simp only [hpde, decide_false, Bool.false_or, Bool.and_eq_true, decide_eq_true_eq]
  · have hp' : pdeAt img f.mem.table (pdIndex a) % 2 = 0 := by
      unfold Present at hp
      omega
    rw [if_pos hp', if_neg hp, if_pos rfl]

/-- The store that holds the physical memory of `s`. -/
def State.shadow (s : State Mmu) : State Flat where
  pmm := s.pmm
  kheap := s.kheap
  vmem := s.vmem
  mem := ⟨s.mem.phys, s.mem.phys, s.mem.cr0, s.mem.cr3⟩

theorem Walking.behind {s : State Mmu} (hw : Walking img s.mem)
    (hid : IdentityTables img s.mem.phys) :
    Behind img s s.shadow := ⟨hw, hid, rfl, rfl, rfl⟩

/-- The WP bit stays set when paging is switched on. -/
theorem writeProtect_on (c : Nat) : (c ||| 1 <<< 16 ||| 0x80000000).testBit 16 = true := by
  rw [Nat.testBit_or, Nat.testBit_or, show Nat.testBit (1 <<< 16) 16 = true by decide,
    Bool.or_true, Bool.true_or]

variable (img) in
theorem hardwareBoot_spec {m : Nat} (hm : pmmStart + pageSize ≤ m)
    (hm' : m < 2 ^ 32) {s : State Mmu} (hoff : s.mem.pagingOn = false) :
    ∃ s₁, (do pmmInit m; pagingInit img; pagingEnable) s = .ok () s₁ ∧
    HardwareInv img s₁ s₁.shadow ∧
      InitialTables img s₁.mem.phys ∧ s₁.pmm.totalPages = pagesOf m ∧
      ∀ j, s₁.pmm.bit j = decide (j < min reservePages (pagesOf m) ∨ pagesOf m ≤ j) := by
  obtain ⟨p, hr₁, ht, hf, hb⟩ := pmmInit_spec hm hm' s
  obtain ⟨t, hr₂, hinit, -⟩ := pagingInit_off img (s := { s with pmm := p }) hoff
  have hres : ∀ i, i < 256 → p.bit i = true := by
    intro i hi
    rw [hb i]
    simp only [reservePages, pageSize]
    exact decide_eq_true (by omega)
  obtain ⟨s₁, hs₁⟩ : ∃ s₁ : State Mmu, s₁ = { s with
    pmm := p
    mem := ⟨t, s.mem.cr0 ||| 1 <<< 16 ||| 0x80000000, img.pageDirectory⟩ } := ⟨_, rfl⟩
  have hwalk : Walking img s₁.mem := by
    rw [hs₁]
    exact ⟨pagingEnable_on _, rfl⟩
  have hinit₁ : InitialTables img s₁.mem.phys := by
    rw [hs₁]
    exact hinit
  refine ⟨s₁, ?_, ⟨hwalk.behind hinit₁.low, ?_, hinit₁.slotsWritable, ?_⟩, hinit₁, ?_, ?_⟩
  · rw [bind_of_ok hr₁, bind_of_ok hr₂, pagingEnable_eq, hs₁]
  · refine InitialTables.inv (s := s₁.shadow) hinit₁ ?_ ?_
    · show s₁.pmm.Inv
      rw [hs₁]
      exact pmmInit_inv ht hf hb
    · show ∀ i, i < 256 → s₁.pmm.bit i = true
      rw [hs₁]
      exact hres
  · rw [hs₁]
    exact writeProtect_on _
  · rw [hs₁]
    exact ht
  · rw [hs₁]
    exact hb

/-- **The hardware sees the flat map.** After `pmm_init`, `paging_init` and `paging_enable`, and any
calls that map and unmap pages above the first 12 MB and return, each access of the hardware is
decided by the last call about its page, or by the initial mapping where there was none: which
byte it reaches, that it faults on a page without entry, and that a write faults on a page
mapped without `PAGE_WRITE`. -/
theorem hardware_flat_map {m : Nat} (hm : pmmStart + pageSize ≤ m)
    (hm' : m < 2 ^ 32) {ops : List MapOp}
    (hops : ∀ op ∈ ops, op.High) {s₀ s : State Mmu} (hoff : s₀.mem.pagingOn = false)
    (hr : (do pmmInit m; pagingInit img; pagingEnable; callMaps img ops) s₀ = .ok () s) {a : Nat}
    (ha : a < 2 ^ 32) (write : Bool) :
    s.mem.translate write a = accessOf (lastEntry initialEntry ops a) write a := by
  obtain ⟨s₁, hboot, hinv, hinit, -⟩ := hardwareBoot_spec img hm hm' hoff
  obtain ⟨_, s₂, h1, h2⟩ := bind_eq_ok.mp hboot
  obtain ⟨_, s₃, h3, h4⟩ := bind_eq_ok.mp h2
  rw [bind_of_ok h1, bind_of_ok h3, bind_of_ok h4] at hr
  obtain ⟨f', hf', h'⟩ := (hinv.calls hops).ok_left hr
  have hstart : ∀ w, w < 2 ^ 32 → entryAt img s₁.shadow.mem.table w = initialEntry w := by
    intro w hw
    rw [initialEntry_eq hw]
    exact hinit.entryAt hw
  obtain ⟨-, hent⟩ := runMaps_spec hinv.inv (fun op hop => (hops op hop).2) hf' hstart
  rw [h'.translate ha, hent a ha]

/-- A page mapped read-only, with a table of its own: it reads, and faults on a write. -/
theorem hardware_flat_map_readonly : ∃ s, (do
      pmmInit pmmMaxBytes
      pagingInit Image.readme
      pagingEnable
      callMaps Image.readme [.map 0x50000000 0x345678 pagePresent]) (State.boot Mmu.blank) =
        .ok () s ∧
    s.mem.translate false 0x50000ABC = .ok 0x345ABC ∧
    s.mem.translate true 0x50000ABC = .error (.pageFault 0x50000ABC) := by
  obtain ⟨s₁, hboot, hinv, -, ht, hb⟩ := hardwareBoot_spec Image.readme
    (m := pmmMaxBytes) (by decide) (by decide)
    (s := State.boot Mmu.blank) (by decide)
  obtain ⟨_, s₂, h1, h2⟩ := bind_eq_ok.mp hboot
  obtain ⟨_, s₃, h3, h4⟩ := bind_eq_ok.mp h2
  -- frame 256 is free, so the table for slot 320 can be allocated
  have hfree : s₁.pmm.bit 256 = false := by
    rw [hb 256]
    decide
  have hops : ∀ op ∈ [MapOp.map 0x50000000 0x345678 pagePresent], op.High := by decide
  obtain ⟨f, hf, -⟩ := vmmMapPage_returns hinv.inv 0x345678 pagePresent
    (v := 0x50000000) (by decide) (k := 256)
    (show 256 < s₁.pmm.totalPages by rw [ht]; decide) hfree
  have hflat : runMaps Image.readme [.map 0x50000000 0x345678 pagePresent] s₁.shadow = .ok () f :=
    bind_of_ok (bind_of_ok hf)
  obtain ⟨s, hs, -⟩ := (hinv.calls hops).ok_right hflat
  have hr : (do
      pmmInit pmmMaxBytes
      pagingInit Image.readme
      pagingEnable
      callMaps Image.readme [.map 0x50000000 0x345678 pagePresent]) (State.boot Mmu.blank) =
        .ok () s := by
    rw [bind_of_ok h1, bind_of_ok h3, bind_of_ok h4, hs]
  have hoff : (State.boot Mmu.blank).mem.pagingOn = false := by decide
  exact ⟨s, hr, hardware_flat_map (by decide) (by decide) hops hoff hr
    (a := 0x50000ABC) (by decide) false,
    hardware_flat_map (by decide) (by decide) hops hoff hr (a := 0x50000ABC) (by decide) true⟩

end Kfs
