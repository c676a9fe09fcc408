import Kfs.Mmu
import Kfs.Frames
import Kfs.VmemSpec

/-!
# The tables behind the paging hardware

As long as no page table lies where the `vmalloc` region grows, frames are handed
out in address order and every page of the region gets the frame at its own
address: `vmm_map_page` then writes the entry that is there already, and
physical memory does not change (`backPage_low`). The one table that is ever
created serves the test page of `pageops`. `WalkInv` fixes all of this; the
specifications below are those of the calls that map, over physical memory.
-/

namespace Kfs

open Kfs.Lib

/-! ## Frames in use -/

/-- The frames in use are those of `S`. -/
structure Used (p : Pmm) (S : Nat → Prop) : Prop where
  inv : p.Inv
  total : p.totalPages = 2304
  bits : ∀ j, j < 2304 → (p.bit j = true ↔ S j)

section Used

variable {p : Pmm} {S S' : Nat → Prop} {f : Nat}

theorem Used.congr (h : Used p S) (hS : ∀ j, S j ↔ S' j) : Used p S' :=
  ⟨h.inv, h.total, fun j hj => (h.bits j hj).trans (hS j)⟩

theorem Used.bit_false (h : Used p S) (hf : f < 2304) (hS : ¬ S f) : p.bit f = false := by
  rw [← Bool.not_eq_true, h.bits f hf]
  exact hS

theorem Used.take (h : Used p S) (hf : f < 2304) (hS : ¬ S f) :
    Used (p.take f) fun j => S j ∨ j = f where
  inv := h.inv.take (by rw [h.total]; exact hf) (h.bit_false hf hS)
  total := by simpa using h.total
  bits j hj := by
    rw [p.bit_take j (h.inv.lt_bits (by rw [h.total]; exact hf))]
    by_cases hjf : j = f
    · simp [hjf]
    · simp [hjf, h.bits j hj]

theorem Used.give (h : Used p S) (hf : f < 2304) (hS : S f) :
    Used (p.give f) fun j => S j ∧ j ≠ f where
  inv := h.inv.give (by rw [h.total]; exact hf) ((h.bits f hf).mpr hS)
  total := by simpa using h.total
  bits j hj := by
    rw [p.bit_give j (h.inv.lt_bits (by rw [h.total]; exact hf))]
    by_cases hjf : j = f
    · simp [hjf]
    · simp [hjf, h.bits j hj]

variable {M : Type} {s : State M}

theorem Used.alloc (h : Used s.pmm S) :
    (∃ f, f < 2304 ∧ ¬ S f ∧ (∀ j, j < f → S j) ∧
      pmmAllocPage s = .ok (pmmStart + f * pageSize) { s with pmm := s.pmm.take f }) ∨
    ((∀ j, j < 2304 → S j) ∧ pmmAllocPage s = .error (.panic "PMM out of memory\n" []) s) := by
  rcases pmmAllocPage_spec h.inv with ⟨f, hf, hb, hmin, hr⟩ | ⟨hall, hr⟩
  · rw [h.total] at hf
    refine .inl ⟨f, hf, fun hS => ?_, fun j hj => (h.bits j (by omega)).mp (hmin j hj), hr⟩
    rw [(h.bits f hf).mpr hS] at hb
    cases hb
  · exact .inr ⟨fun j hj => (h.bits j hj).mp (hall j (by rw [h.total]; exact hj)), hr⟩

theorem Used.alloc_lowest (h : Used s.pmm S) (hf : f < 2304) (hS : ¬ S f)
    (hmin : ∀ j, j < f → S j) :
    pmmAllocPage s = .ok (pmmStart + f * pageSize) { s with pmm := s.pmm.take f } :=
  pmmAllocPage_lowest h.inv (by rw [h.total]; exact hf) (h.bit_false hf hS)
    fun j hj => (h.bits j (by omega)).mpr (hmin j hj)

theorem Used.alloc_next {n : Nat} (h : Used s.pmm (· < n)) (hn : n < 2304) :
    pmmAllocPage s = .ok (pmmStart + n * pageSize) { s with pmm := s.pmm.take n } ∧
      Used (s.pmm.take n) (· < n + 1) := by
  exact ⟨h.alloc_lowest hn (Nat.lt_irrefl n) fun j hj => hj,
    (h.take hn (Nat.lt_irrefl n)).congr fun j => by omega⟩

theorem Used.free (h : Used s.pmm S) (hf : f < 2304) (hS : S f) :
    pmmFreePage (pmmStart + f * pageSize) s = .ok () { s with pmm := s.pmm.give f } :=
  pmmFreePage_used h.inv (by rw [h.total]; exact hf) ((h.bits f hf).mpr hS)

end Used

/-! ## The tables in physical memory -/

variable {img : Image}

@[simp] def frameAddr (k : Nat) : Nat := pmmStart + k * pageSize

/-- The directory entry of the test page, whose table, if there is one, is in frame
`tbl`. -/
def testPde : Option Nat → Nat
  | none => 0
  | some k => frameAddr k + 7

/-- **The tables**: the static ones map the first 12 MB to themselves, slot `64` may
have a table in frame `tbl`, whose first entry is `e` and which is empty otherwise. -/
structure WalkTables (img : Image) (t : Mem) (tbl : Option Nat) (e : Nat) : Prop where
  low : IdentityTables img t
  slots : ∀ i, 3 ≤ i → i < 1024 → pdeAt img t i = if i = pdIndex testPage then testPde tbl else 0
  words : ∀ k, tbl = some k → ∀ j, j < 1024 →
    load32 t (frameAddr k + 4 * j) = if j = 0 then e else 0

def TableBytes (img : Image) (tbl : Option Nat) (x : Nat) : Prop :=
  StaticTables img x ∨ ∃ k, tbl = some k ∧ frameAddr k ≤ x ∧ x < frameAddr k + 4096

theorem WalkTables.congr {t t' : Mem} {tbl : Option Nat} {e : Nat} (h : WalkTables img t tbl e)
    (ht : ∀ x, TableBytes img tbl x → t' x = t x) : WalkTables img t' tbl e where
  low := h.low.congr fun x hx => ht x (.inl hx)
  slots i h3 hi := by
    rw [← h.slots i h3 hi]
    exact load32_congr fun x h1 h2 => ht x (.inl (.inl ⟨by omega, by omega⟩))
  words k hk j hj := by
    rw [← h.words k hk j hj]
    exact load32_congr fun x h1 h2 => ht x (.inr ⟨k, hk, by omega, by omega⟩)

section Test

variable {t : Mem} {k e : Nat}

theorem pdIndex_testPage : pdIndex testPage = 64 := by decide

theorem ptIndex_testPage : ptIndex testPage = 0 := by decide

theorem WalkTables.testPde (h : WalkTables img t (some k) e) :
    pdeAt img t 64 = frameAddr k + 7 := by
  rw [h.slots 64 (by omega) (by omega), if_pos pdIndex_testPage.symm]
  rfl

theorem WalkTables.testPresent (h : WalkTables img t (some k) e) : Present img t 64 := by
  unfold Present
  rw [h.testPde]
  simp only [frameAddr, pmmStart, pageSize]
  omega

theorem WalkTables.testTable (h : WalkTables img t (some k) e) :
    tableOf img t 64 = frameAddr k := by
  unfold tableOf
  rw [h.testPde]
  simp only [frameAddr, pmmStart, pageSize]
  omega

theorem WalkTables.testEntry (h : WalkTables img t (some k) e) : entryAt img t testPage = e := by
  unfold entryAt
  rw [pdIndex_testPage, if_pos h.testPresent, h.testTable, ptIndex_testPage]
  exact h.words k rfl 0 (by omega)

theorem WalkTables.setTest (h : WalkTables img t (some k) e) (hk : 256 ≤ k) {e' : Nat}
    (he' : e' < 2 ^ 32) : WalkTables img (store32 t (frameAddr k) e') (some k) e' := by
  have hpd := img.pdHi
  have hpt := img.ptHi
  have hoff : ∀ x, StaticTables img x → store32 t (frameAddr k) e' x = t x := by
    intro x hx
    refine store32_other (.inl ?_)
    simp only [frameAddr, pmmStart, pageSize]
    rcases hx with hx | hx <;> omega
  refine ⟨h.low.congr hoff, fun i h3 hi => ?_, fun k' hk' j hj => ?_⟩
  · rw [← h.slots i h3 hi]
    exact load32_congr fun x h1 h2 => hoff x (.inl ⟨by omega, by omega⟩)
  · cases hk'
    split
    · next hj0 =>
      subst hj0
      exact load32_store32 he'
    · next hj0 =>
      rw [load32_store32_ne (by omega), h.words k rfl j hj, if_neg hj0]

end Test

theorem WalkTables.testByte {m : Mmu} {k e i : Nat} (h : WalkTables img m.phys (some k) e)
    (hw : Walking img m) (he : e % 4 = 3) (hi : i < 4096) (w : Bool) :
    m.translate w (testPage + i) = .ok (e - e % 4096 + i) := by
  have h1 : pdIndex (testPage + i) = 64 := by
    unfold pdIndex
    simp only [testPage]
    omega
  have h2 : ptIndex (testPage + i) = 0 := by
    unfold ptIndex
    simp only [testPage]
    omega
  have hent : entryAt img m.phys (testPage + i) = e := by
    rw [← h.testEntry]
    unfold entryAt
    rw [h1, h2, pdIndex_testPage, ptIndex_testPage]
  have hpde : pdeAt img m.phys 64 % 4 = 3 := by
    rw [h.testPde]
    simp only [frameAddr, pmmStart, pageSize]
    omega
  rw [hw.translate (by simp only [testPage]; omega) w (by rw [h1]; exact hpde)
    (by rw [hent]; exact he),
    hent, show (testPage + i) % 4096 = i by simp only [testPage]; omega]

/-! ## The invariant -/

/-- The frames in use when the region ends at frame `n`. -/
def Held (n : Nat) (tbl : Option Nat) (j : Nat) : Prop := j < n ∨ tbl = some j

/-- **The invariant** behind the paging hardware: the frames below `n` are in use, and
the one of the test page's table, which lies above them. -/
structure WalkInv (img : Image) (s : State Mmu) (n : Nat) (tbl : Option Nat) : Prop where
  walking : Walking img s.mem
  tables : WalkTables img s.mem.phys tbl 0
  used : Used s.pmm (Held n tbl)
  ge : 256 ≤ n
  le : n ≤ 2304
  above : ∀ k, tbl = some k → n ≤ k ∧ k < 2304

theorem WalkInv.congr {s s' : State Mmu} {n : Nat} {tbl : Option Nat} (h : WalkInv img s n tbl)
    (hm : s'.mem = s.mem) (hp : s'.pmm = s.pmm) : WalkInv img s' n tbl where
  walking := hm ▸ h.walking
  tables := hm ▸ h.tables
  used := hp ▸ h.used
  ge := h.ge
  le := h.le
  above := h.above

theorem WalkInv.setPhys {s : State Mmu} {n : Nat} {tbl : Option Nat} (h : WalkInv img s n tbl)
    {d : Mem} (hd : ∀ x, TableBytes img tbl x → d x = s.mem.phys x) :
    WalkInv img (s.setPhys d) n tbl :=
  ⟨⟨h.walking.on, h.walking.cr3⟩, h.tables.congr hd, h.used, h.ge, h.le, h.above⟩

/-! ## Mapping a page below 12 MB -/

theorem vmmMapPage_low {s : State Mmu} (h : Walking img s.mem) (hid : IdentityTables img s.mem.phys)
    {v : Nat} (hv : v < 0xC00000) (phys flags : Nat) :
    vmmMapPage img v phys flags s =
      .ok 0 (s.setPhys
        (store32 s.mem.phys (img.pageTables + 4 * (v / 4096)) (mapEntry phys flags))) := by
  have hlo := img.ptLo
  have hhi := img.ptHi
  have hi : pdIndex v < 3 := by
    unfold pdIndex
    omega
  have hpte :
      tableOf img s.mem.phys (pdIndex v) + 4 * ptIndex v = img.pageTables + 4 * (v / 4096) := by
    rw [hid.tableOf hi]
    unfold pdIndex ptIndex
    omega
  have hwalk := virtToPte_present (by omega) (readsPde_low h hid (by omega)) (hid.present hi) true
  rw [hpte] at hwalk
  rw [vmmMapPage_walk phys flags hwalk (by omega), bind_of_ok (stTable_low h hid (by omega) _)]
  rfl

theorem vmmMapPage_self {s : State Mmu} (h : Walking img s.mem)
    (hid : IdentityTables img s.mem.phys) {v : Nat} (hv : v < 0xC00000) (hal : v % 4096 = 0) :
    vmmMapPage img v v pageWrite s = .ok 0 s := by
  have hword : load32 s.mem.phys (img.pageTables + 4 * (v / 4096)) = v + 3 := by
    have := hid.pte (v / 2 ^ 22) (v / 4096 % 1024) (by omega) (by omega)
    rw [show img.pageTables + 4 * (v / 4096) =
      img.pageTables + 4096 * (v / 2 ^ 22) + 4 * (v / 4096 % 1024) by omega, this]
    omega
  rw [vmmMapPage_low h hid hv, mapEntry_frame hal (by omega), ← hword, store32_load32]
  rfl

/-- **Backing the next page** while no table is in its frame: it gets the frame at its
own address. -/
theorem backPage_low {s : State Mmu} {n : Nat} {tbl : Option Nat} (h : WalkInv img s n tbl)
    (hn : tbl ≠ some n) :
    (n < 2304 ∧
      pmmAllocPage s = .ok (frameAddr n) { s with pmm := s.pmm.take n } ∧
      vmmMapPage img (frameAddr n) (frameAddr n) pageWrite { s with pmm := s.pmm.take n } =
        .ok 0 { s with pmm := s.pmm.take n } ∧
      WalkInv img { s with pmm := s.pmm.take n } (n + 1) tbl) ∨
    (n = 2304 ∧ pmmAllocPage s = .error (.panic "PMM out of memory\n" []) s) := by
  rcases h.used.alloc with ⟨f, hf, hfree, hmin, hr⟩ | ⟨hall, hr⟩
  swap
  · refine .inr ⟨?_, hr⟩
    have := h.le
    by_contra hne
    rcases hall n (by omega) with h1 | h1
    · omega
    · exact hn h1
  have hfn : f = n := by
    by_contra hne
    by_cases hlt : f < n
    · exact hfree (.inl hlt)
    · rcases hmin n (by omega) with h1 | h1
      · omega
      · exact hn h1
  subst hfn
  refine .inl ⟨hf, hr, ?_, h.walking, h.tables, ?_, ?_, hf, fun k hk => ?_⟩
  · refine vmmMapPage_self (s := { s with pmm := s.pmm.take f }) h.walking h.tables.low ?_ ?_ <;>
      simp only [frameAddr, pmmStart, pageSize] <;> omega
  · refine (h.used.take hf hfree).congr fun j => ?_
    unfold Held
    constructor
    · rintro ((h1 | h1) | h1)
      · exact .inl (by omega)
      · exact .inr h1
      · exact .inl (by omega)
    · rintro (h1 | h1)
      · by_cases hj : j = f
        · exact .inr hj
        · exact .inl (.inl (by omega))
      · exact .inl (.inr h1)
  · have := h.ge
    omega
  · have := h.above k hk
    have : k ≠ f := by
      rintro rfl
      exact hn hk
    omega

theorem backRound_low {s : State Mmu} {n : Nat} {tbl : Option Nat} (h : WalkInv img s n tbl)
    (hn : tbl ≠ some n) {va : Nat} (hva : va = frameAddr n) (noFrame noMap : K Mmu Unit) :
    (WalkInv img { s with pmm := s.pmm.take n } (n + 1) tbl ∧ (do
        let phys ← pmmAllocPage
        if phys = 0 then
          noFrame
        if (← vmmMapPage img va phys pageWrite) ≠ 0 then
          noMap : K Mmu Unit) s = .ok () { s with pmm := s.pmm.take n }) ∨
    (n = 2304 ∧ (do
        let phys ← pmmAllocPage
        if phys = 0 then
          noFrame
        if (← vmmMapPage img va phys pageWrite) ≠ 0 then
          noMap : K Mmu Unit) s = .error (.panic "PMM out of memory\n" []) s) := by
  subst hva
  rcases backPage_low h hn with ⟨-, h1, h2, hinv⟩ | ⟨hle, h1⟩
  · refine .inl ⟨hinv, ?_⟩
    rw [bind_of_ok h1]
    simp only [show frameAddr n ≠ 0 by simp, ↓reduceIte]
    rw [bind_of_ok h2]
    rfl
  · exact .inr ⟨hle, bind_of_error h1⟩

theorem vmallocMap_low {s s' : State Mmu} {n k : Nat} {tbl : Option Nat} (h : WalkInv img s n tbl)
    (htbl : ∀ i, i < k → tbl ≠ some (n + i))
    (hr : vmallocMap img (frameAddr n) (frameAddr n + k * 4096) s = .ok () s') :
    WalkInv img s' (n + k) tbl ∧ ∃ p, s' = { s with pmm := p } := by
  have hcount : (frameAddr n + k * 4096 - frameAddr n + (pageSize - 1)) / pageSize = k := by
    simp only [pageSize]
    omega
  unfold vmallocMap at hr
  rw [hcount] at hr
  have := forUp_inv (fun i t => WalkInv img t (n + i) tbl ∧ ∃ p, t = { s with pmm := p }) hr
    ⟨h, s.pmm, rfl⟩ ?_
  · simpa using this
  rintro i t t' - hi ⟨ht, p, hp⟩ hb
  have hva : frameAddr n + i * pageSize = frameAddr (n + i) := by
    simp only [frameAddr, pageSize]
    omega
  rcases backRound_low ht (htbl i (by omega)) hva
    (kpanicFatal "vmalloc: failed to allocate physical page\n" [])
    (kpanicFatal "vmalloc: failed to map page\n" []) with ⟨hinv, he⟩ | ⟨-, he⟩
  · rw [he] at hb
    cases hb
    exact ⟨hinv, _, by rw [hp]⟩
  · rw [he] at hb
    cases hb

/-! ## The page test -/

theorem newPde_test {T : Nat} (hT : T % 4096 = 0) : newPde T testPage = T + 7 := by
  unfold newPde
  rw [if_pos (by decide), Nat.or_assoc, Nat.or_assoc]
  exact or_flags T _ hT (by decide)

theorem WalkTables.linked {t d : Mem} {e k : Nat} (ht : WalkTables img t none e) (hk : 256 ≤ k)
    (hk' : k < 2304) (hsame : SameOff (fun x => frameAddr k ≤ x ∧ x < frameAddr k + 4096) t d)
    (hzero : ∀ j, j < 1024 → load32 d (frameAddr k + 4 * j) = 0) :
    WalkTables img (store32 d (img.pageDirectory + 4 * 64) (frameAddr k + 7)) (some k) 0 := by
  have hpd := img.pdHi
  have hpt := img.ptHi
  have hap := img.apart
  have hT : frameAddr k = 0x100000 + k * 4096 := rfl
  have hstat : ∀ x, StaticTables img x → d x = t x :=
    fun x hx => hsame x fun h => by rcases hx with hx | hx <;> omega
  have hlow : IdentityTables img d := ht.low.congr hstat
  refine ⟨⟨fun i hi => ?_, fun i j hi hj => ?_⟩, fun i h3 hi => ?_, fun k' hk' j hj => ?_⟩
  · unfold pdeAt
    rw [load32_store32_ne (by omega)]
    exact hlow.pde i hi
  · rw [load32_store32_ne (by omega)]
    exact hlow.pte i j hi hj
  · unfold pdeAt
    by_cases hi64 : i = 64
    · rw [hi64, load32_store32 (by omega), if_pos pdIndex_testPage.symm]
      rfl
    · rw [load32_store32_ne (by omega), if_neg (by rw [pdIndex_testPage]; exact hi64)]
      have hslot := ht.slots i h3 hi
      rw [if_neg (by rw [pdIndex_testPage]; exact hi64)] at hslot
      rw [← hslot]
      exact load32_congr fun x h1 h2 => hstat x (.inl ⟨by omega, by omega⟩)
  · cases hk'
    rw [load32_store32_ne (by omega), hzero j hj, ite_self]

/-- **A table for the test page**: the lowest free frame, cleared and linked. -/
theorem newPageTable_low {s : State Mmu} {S : Nat → Prop} {e : Nat} (hw : Walking img s.mem)
    (ht : WalkTables img s.mem.phys none e) (hu : Used s.pmm S) (hS : ∀ j, j < 256 → S j) :
    (∃ k d, k < 2304 ∧ ¬ S k ∧ (∀ j, j < k → S j) ∧
      newPageTable img testPage 64 s = .ok () { s.setPhys d with pmm := s.pmm.take k } ∧
      WalkTables img d (some k) 0 ∧
      SameOff (fun x => StaticTables img x ∨ frameAddr k ≤ x ∧ x < frameAddr k + 4096)
        s.mem.phys d) ∨
    ((∀ j, j < 2304 → S j) ∧
      newPageTable img testPage 64 s = .error (.panic "PMM out of memory\n" []) s) := by
  rcases hu.alloc with ⟨k, hk, hfree, hmin, hr⟩ | ⟨hall, hr⟩
  swap
  · refine .inr ⟨hall, ?_⟩
    unfold newPageTable
    rw [bind_of_error hr]
  have hk256 : 256 ≤ k := by
    by_contra hlt
    exact hfree (hS k (by omega))
  have hpd := img.pdHi
  have hpt := img.ptHi
  obtain ⟨T, hT⟩ : ∃ T, T = frameAddr k := ⟨_, rfl⟩
  have hT' : T = 0x100000 + k * 4096 := hT
  obtain ⟨d₁, hclr, hzero, hsame⟩ := fill_spec (P := physTable) (a := T) (n := 1024)
    (s := { s with pmm := s.pmm.take k }) (W := fun x => T ≤ x ∧ x < T + 4096)
    (plain_low hw ht.low (.inr rfl) fun x hx =>
      ⟨by omega, fun h => by rcases h with h | h <;> omega⟩) (fun _ => 0)
    (fun _ _ => by decide) fun x h1 h2 => ⟨h1, h2⟩
  have hclr : forUp (fun i => stTable (T + 4 * i) 0) 0 1024 { s with pmm := s.pmm.take k } =
    .ok () { s.setPhys d₁ with pmm := s.pmm.take k } := hclr
  have hsame : SameOff (fun x => T ≤ x ∧ x < T + 4096) s.mem.phys d₁ := hsame
  have hlow₁ : IdentityTables img d₁ :=
    ht.low.congr fun x hx => hsame x fun h => by rcases hx with hx | hx <;> omega
  have hst := stTable_low (s := { s.setPhys d₁ with pmm := s.pmm.take k })
    (a := img.pageDirectory + 4 * 64) ⟨hw.on, hw.cr3⟩ hlow₁ (by omega) (newPde T testPage)
  rw [newPde_test (by omega)] at hst
  refine .inl ⟨k, store32 d₁ (img.pageDirectory + 4 * 64) (T + 7), hk, hfree, hmin, ?_, ?_, ?_⟩
  · unfold newPageTable
    rw [bind_of_ok hr]
    have hnew : pmmStart + k * pageSize = T := hT.symm
    rw [hnew, bind_of_ok hclr]
    refine Eq.trans ?_ hst
    rw [← newPde_test (T := T) (by omega)]
    rfl
  · rw [hT] at hsame hzero ⊢
    exact ht.linked hk256 hk hsame hzero
  · rw [← hT]
    refine SameOff.store32 (hsame.mono fun x hx => .inr hx) fun x h1 h2 => ?_
    exact .inl (.inl ⟨by omega, by omega⟩)

/-- What the page test may write: the tables, and the frames the region does not use. -/
def TestArea (img : Image) (n x : Nat) : Prop := StaticTables img x ∨ frameAddr n ≤ x

/-- The state while frame `f` is held for the test page. -/
structure TestInv (img : Image) (s : State Mmu) (n k f e : Nat) : Prop where
  walking : Walking img s.mem
  tables : WalkTables img s.mem.phys (some k) e
  used : Used s.pmm fun j => Held n (some k) j ∨ j = f
  ge : 256 ≤ n
  le : n ≤ k
  lt : k < 2304
  frame : n ≤ f ∧ f < 2304 ∧ f ≠ k

section PageTest

variable {s : State Mmu} {n k f e : Nat}

theorem frameAddr_mod (f : Nat) : frameAddr f % 4096 = 0 := by
  simp only [frameAddr, pmmStart, pageSize]
  omega

theorem frameAddr_mono {j k : Nat} (h : j ≤ k) : frameAddr j ≤ frameAddr k :=
  Nat.add_le_add_left (Nat.mul_le_mul_right _ h) _

theorem frameAddr_next (n : Nat) : frameAddr (n + 1) = frameAddr n + pageSize := by
  unfold frameAddr
  rw [Nat.add_mul, Nat.one_mul, Nat.add_assoc]

/-- The walk for the test page ends at the first word of its table. -/
theorem TestInv.walk (h : TestInv img s n k f e) (create : Bool) :
    virtToPte img testPage create s = .ok (frameAddr k) s := by
  have hp := h.tables.testPresent
  rw [← pdIndex_testPage] at hp
  have := virtToPte_present (by decide) (readsPde_low h.walking h.tables.low (by decide)) hp create
  rw [pdIndex_testPage, ptIndex_testPage, h.tables.testTable] at this
  exact this

theorem TestInv.setEntry (h : TestInv img s n k f e) {d : Nat} (hd : d < 2 ^ 32) :
    stTable (frameAddr k) d s = .ok () (s.setPhys (store32 s.mem.phys (frameAddr k) d)) ∧
      TestInv img (s.setPhys (store32 s.mem.phys (frameAddr k) d)) n k f d := by
  have h1 := h.ge
  have h2 := h.le
  have h3 := h.lt
  refine ⟨stTable_low h.walking h.tables.low ?_ d, ⟨h.walking.on, h.walking.cr3⟩,
    h.tables.setTest (by omega) hd, h.used, h1, h2, h3, h.frame⟩
  simp only [frameAddr, pmmStart, pageSize]
  omega

theorem TestInv.getMapping (h : TestInv img s n k f e) :
    vmmGetMapping img testPage s = .ok e s := by
  have h3 := h.lt
  rw [vmmGetMapping_walk (h.walk false) (by simp), ldTable_low h.walking h.tables.low
    (by simp only [frameAddr, pmmStart, pageSize]; omega)]
  have := h.tables.words k rfl 0 (by omega)
  rw [Nat.mul_zero, Nat.add_zero, if_pos rfl] at this
  rw [this]

/-- The write and the read at the test page reach frame `f`. -/
theorem TestInv.write (h : TestInv img s n k f (frameAddr f + 3)) (v : Nat) :
    st testPage v s = .ok () (s.setPhys (store32 s.mem.phys (frameAddr f) v)) ∧
      TestInv img (s.setPhys (store32 s.mem.phys (frameAddr f) v)) n k f (frameAddr f + 3) := by
  have hal := frameAddr_mod f
  have h1 := h.ge
  have h2 := h.le
  have hpd := img.pdHi
  have hpt := img.ptHi
  obtain ⟨hnf, hf, hfk⟩ := h.frame
  refine ⟨?_, ⟨h.walking.on, h.walking.cr3⟩, h.tables.congr fun x hx => store32_other ?_,
    h.used, h1,
    h2, h.lt, h.frame⟩
  · unfold st
    rw [Nat.mod_eq_of_lt (by decide)]
    refine storeAt_mmu (.inl rfl) (by decide) (fun i hi => ?_) v
    rw [h.tables.testByte h.walking (by omega) (by omega) true]
    congr 1
    omega
  · simp only [frameAddr, pmmStart, pageSize]
    rcases hx with (hx | hx) | ⟨k', hk', hx⟩
    · omega
    · omega
    · cases hk'
      simp only [frameAddr, pmmStart, pageSize] at hx
      omega

theorem TestInv.read (h : TestInv img s n k f (frameAddr f + 3)) {v : Nat}
    (hv : load32 s.mem.phys (frameAddr f) = v) : ld testPage s = .ok v s := by
  have hal := frameAddr_mod f
  unfold ld
  rw [← hv]
  rw [Nat.mod_eq_of_lt (by decide)]
  refine loadAt_mmu (.inl rfl) (by decide) fun i hi => ?_
  rw [h.tables.testByte h.walking (by omega) (by omega) false]
  congr 1
  omega

theorem TestInv.free (h : TestInv img s n k f 0) :
    pmmFreePage (frameAddr f) s = .ok () { s with pmm := s.pmm.give f } ∧
      WalkInv img { s with pmm := s.pmm.give f } n (some k) := by
  obtain ⟨hnf, hf, hfk⟩ := h.frame
  have h2 := h.le
  have h3 := h.lt
  refine ⟨h.used.free hf (.inr rfl), h.walking, h.tables, ?_, h.ge, by omega, fun k' hk' => ?_⟩
  · refine (h.used.give hf (.inr rfl)).congr fun j => ?_
    unfold Held
    constructor
    · rintro ⟨h4 | h4, h5⟩
      · exact h4
      · exact absurd h4 h5
    · rintro (h4 | h4)
      · exact ⟨.inl (.inl h4), by omega⟩
      · refine ⟨.inl (.inr h4), ?_⟩
        injection h4 with h4
        omega
  · cases hk'
    exact ⟨h2, h3⟩

theorem TestInv.map (h : TestInv img s n k f e)
    {s₀ : State Mmu} (hwalk : virtToPte img testPage true s₀ = .ok (frameAddr k) s) :
    vmmMapPage img testPage (frameAddr f) pageWrite s₀ =
      .ok 0 (s.setPhys (store32 s.mem.phys (frameAddr k) (frameAddr f + 3))) ∧
      TestInv img (s.setPhys (store32 s.mem.phys (frameAddr k) (frameAddr f + 3))) n k f
        (frameAddr f + 3) := by
  have hf := h.frame.2.1
  have hlt : frameAddr f + 3 < 2 ^ 32 := by
    simp only [frameAddr, pmmStart, pageSize]
    omega
  obtain ⟨hst, hinv⟩ := h.setEntry hlt
  refine ⟨?_, hinv⟩
  rw [vmmMapPage_walk _ _ hwalk (by simp), mapEntry_frame (frameAddr_mod f) (by omega),
    bind_of_ok hst]
  rfl

theorem WalkInv.testInv (h : WalkInv img s n (some k)) (hf : f < 2304)
    (hfree : ¬ Held n (some k) f) :
    TestInv img { s with pmm := s.pmm.take f } n k f 0 := by
  have hab := h.above k rfl
  refine ⟨h.walking, h.tables, h.used.take hf hfree, h.ge, hab.1, hab.2, ?_, hf, ?_⟩
  · by_contra hlt
    exact hfree (.inl (by omega))
  · rintro rfl
    exact hfree (.inr rfl)

theorem least_free {k : Nat} (hfree : ¬ (Held n none k ∨ k = n))
    (hmin : ∀ j, j < k → Held n none j ∨ j = n) : k = n + 1 := by
  have hiff : ∀ j, Held n none j ∨ j = n ↔ j < n + 1 := by
    intro j
    simp only [Held, reduceCtorEq, or_false]
    omega
  rw [hiff] at hfree
  by_contra hne
  exact absurd ((hiff _).mp (hmin (n + 1) (by omega))) (Nat.lt_irrefl _)

theorem testTable_low (h : WalkInv img s n none) (hn : n < 2304) :
    (∃ d, virtToPte img testPage true { s with pmm := s.pmm.take n } =
        .ok (frameAddr (n + 1)) { s.setPhys d with pmm := (s.pmm.take n).take (n + 1) } ∧
      TestInv img { s.setPhys d with pmm := (s.pmm.take n).take (n + 1) } n (n + 1) n 0 ∧
      SameOff (TestArea img n) s.mem.phys d) ∨
    (2303 ≤ n ∧ virtToPte img testPage true { s with pmm := s.pmm.take n } =
      .error (.panic "PMM out of memory\n" []) { s with pmm := s.pmm.take n }) := by
  have hge := h.ge
  have hfree : ¬ Held n none n := by
    rintro (h1 | h1)
    · omega
    · cases h1
  have hu := h.used.take hn hfree
  have habs : ¬ Present img s.mem.phys (pdIndex testPage) := by
    unfold Present
    rw [h.tables.slots _ (by decide) (by decide), if_pos rfl]
    decide
  have hcreate := virtToPte_create (s := { s with pmm := s.pmm.take n }) (v := testPage) (by decide)
    (readsPde_low (s := { s with pmm := s.pmm.take n }) h.walking h.tables.low
      (v := testPage) (by decide)) habs
  rw [pdIndex_testPage] at hcreate
  rcases newPageTable_low (s := { s with pmm := s.pmm.take n }) h.walking h.tables hu
    (fun j hj => .inl (.inl (by omega))) with ⟨k, d, hk, hkfree, hmin, hr, ht, hsame⟩ | ⟨hall, hr⟩
  swap
  · refine .inr ⟨?_, by rw [hcreate, bind_of_error hr]⟩
    by_contra hlt
    rcases hall (n + 1) (by omega) with (h1 | h1) | h1
    · omega
    · cases h1
    · omega
  obtain rfl := least_free hkfree hmin
  have hinv :
      TestInv img { s.setPhys d with pmm := (s.pmm.take n).take (n + 1) } n (n + 1) n 0 := by
    refine ⟨⟨h.walking.on, h.walking.cr3⟩, ht, (hu.take hk hkfree).congr fun j => ?_, hge, by omega,
      hk, by omega, hn, by omega⟩
    simp only [Held, Option.some.injEq, reduceCtorEq, or_false]
    omega
  refine .inl ⟨d, ?_, hinv, hsame.mono fun x hx => ?_⟩
  · have hpde := readsPde_low hinv.walking hinv.tables.low (v := testPage) (by decide)
    unfold ReadsPde at hpde
    rw [pdIndex_testPage] at hpde
    rw [hcreate, bind_of_ok hr]
    refine (bind_of_ok hpde).trans ?_
    rw [tableOf_eq, ptIndex_testPage]
    show EStateM.Result.ok (tableOf img d 64) _ = _
    rw [ht.testTable]
  · rcases hx with hx | hx
    · exact .inl hx
    · exact .inr ((frameAddr_mono (Nat.le_succ n)).trans hx.1)

/-- **Mapping the test page.** -/
theorem mapTest_low {tbl : Option Nat} (h : WalkInv img s n tbl) (hf : f < 2304)
    (hfree : ¬ Held n tbl f) (hmin : ∀ j, j < f → Held n tbl j) :
    (∃ k p d, vmmMapPage img testPage (frameAddr f) pageWrite { s with pmm := s.pmm.take f } =
        .ok 0 { s.setPhys d with pmm := p } ∧
      TestInv img { s.setPhys d with pmm := p } n k f (frameAddr f + 3) ∧
      (tbl = some k ∨ tbl = none ∧ k = n + 1) ∧ SameOff (TestArea img n) s.mem.phys d) ∨
    (2303 ≤ n ∧ ∃ err s',
      vmmMapPage img testPage (frameAddr f) pageWrite { s with pmm := s.pmm.take f } =
        .error err s') := by
  have harea : ∀ {k : Nat} {d : Mem} {v : Nat}, n ≤ k → SameOff (TestArea img n) s.mem.phys d →
      SameOff (TestArea img n) s.mem.phys (store32 d (frameAddr k) v) := by
    intro k d v hk hd
    exact hd.store32 fun x h1 _ => .inr ((frameAddr_mono hk).trans h1)
  cases tbl with
  | some k =>
    have hinv := h.testInv hf hfree
    obtain ⟨hmap, hinv'⟩ := hinv.map (hinv.walk true)
    exact .inl ⟨k, _, _, hmap, hinv', .inl rfl, harea (h.above k rfl).1 (SameOff.refl _ _)⟩
  | none =>
    have hfn : f = n := by
      by_contra hne
      by_cases hlt : f < n
      · exact hfree (.inl hlt)
      · rcases hmin n (by omega) with h1 | h1
        · omega
        · cases h1
    subst hfn
    rcases testTable_low h hf with ⟨d, hwalk, hinv, hsame⟩ | ⟨hle, hr⟩
    · obtain ⟨hmap, hinv'⟩ := hinv.map hwalk
      exact .inl ⟨f + 1, _, _, hmap, hinv', .inr ⟨rfl, rfl⟩, harea (by omega) hsame⟩
    · exact .inr ⟨hle, _, _, bind_of_error hr⟩

end PageTest

/-- **The page test** keeps the invariant; it takes a table for its slot the first
time. It panics only when frames run out. -/
theorem cmdPageOps_low {s : State Mmu} {n : Nat} {tbl : Option Nat} (h : WalkInv img s n tbl) :
    (∃ r k p d, cmdPageOps img s = .ok r { s.setPhys d with pmm := p } ∧
      WalkInv img { s.setPhys d with pmm := p } n (some k) ∧
      (tbl = some k ∨ tbl = none ∧ k = n + 1) ∧ SameOff (TestArea img n) s.mem.phys d) ∨
    (2303 ≤ n ∧ ∃ err s', cmdPageOps img s = .error err s') := by
  rcases h.used.alloc with ⟨f, hf, hfree, hmin, hr⟩ | ⟨hall, hr⟩
  swap
  · refine .inr ⟨?_, _, _, bind_of_error hr⟩
    by_contra hlt
    rcases hall n (by omega) with h1 | h1
    · omega
    · rcases hall (n + 1) (by omega) with h2 | h2
      · omega
      · rw [h1] at h2
        injection h2
        omega
  have hnf : n ≤ f := by
    by_contra hlt
    exact hfree (.inl (by omega))
  rcases mapTest_low h hf hfree hmin with ⟨k, p, d, hmap, hinv, htbl, hsame⟩ | ⟨hle, err, s', hmap⟩
  swap
  · refine .inr ⟨hle, err, s', ?_⟩
    unfold cmdPageOps
    rw [bind_of_ok hr]
    simp only [show pmmStart + f * pageSize ≠ 0 by simp, ↓reduceIte]
    exact bind_of_error hmap
  obtain ⟨hw, hinv₁⟩ := hinv.write 0x12345678
  have hread := hinv₁.read (v := 0x12345678) (load32_store32 (by decide))
  have hgot := hinv₁.getMapping
  obtain ⟨hunmap, hinv₂⟩ := hinv₁.setEntry (d := 0) (by decide)
  have hunmap' := vmmUnmapPage_walk (hinv₁.walk false) (by simp)
  rw [hunmap] at hunmap'
  have hafter := hinv₂.getMapping
  obtain ⟨hgive, hinv₃⟩ := hinv₂.free
  refine .inl ⟨some ⟨true, frameAddr f + 3, true⟩, k, _, _, ?_, hinv₃, htbl, ?_⟩
  · unfold cmdPageOps
    rw [bind_of_ok hr]
    simp only [show pmmStart + f * pageSize ≠ 0 by simp, ↓reduceIte]
    refine (bind_of_ok hmap).trans ?_
    refine (bind_of_ok hw).trans ?_
    refine (bind_of_ok hread).trans ?_
    refine (bind_of_ok hgot).trans ?_
    refine (bind_of_ok hunmap').trans ?_
    refine (bind_of_ok hafter).trans ?_
    exact (bind_of_ok hgive).trans rfl
  · exact SameOff.store32 (SameOff.store32 hsame fun x h1 _ => .inr ((frameAddr_mono hnf).trans h1))
      fun x h1 _ => .inr ((frameAddr_mono hinv.le).trans h1)

end Kfs
