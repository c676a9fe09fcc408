import Kfs.Paging
import Kfs.PmmInv
import Kfs.Port

/-!
# Two levels of tables are one flat map

`entryAt` reads the entry of a page through the directory. `PagingInv` says
what keeps the tables apart: the static ones lie in the kernel image, every
other one is a frame of its own that the allocator counts as used. Under it a
write to one entry changes the mapping of one page (`setEntry_spec`), a fresh
table changes nothing (`newPageTable_spec`), and so `vmm_map_page` and
`vmm_unmap_page` update a flat map from pages to entries.
-/

namespace Kfs

open Kfs.Lib

variable (img : Image)

def pdIndex (v : Nat) : Nat := v / 2 ^ 22

def ptIndex (v : Nat) : Nat := v / 2 ^ 12 % 1024

def pdeAt (t : Mem) (i : Nat) : Nat := load32 t (img.pageDirectory + 4 * i)

def tableOf (t : Mem) (i : Nat) : Nat := pdeAt img t i - pdeAt img t i % 4096

def Present (t : Mem) (i : Nat) : Prop := pdeAt img t i % 2 = 1

instance (t : Mem) (i : Nat) : Decidable (Present img t i) := inferInstanceAs (Decidable (_ = _))

/-- The page-table entry of address `v`, `0` where there is no table. -/
def entryAt (t : Mem) (v : Nat) : Nat :=
  if Present img t (pdIndex v) then load32 t (tableOf img t (pdIndex v) + 4 * ptIndex v) else 0

/-- Slot `i`'s table: a static one for the first three, a used frame otherwise. -/
inductive OwnTable (p : Pmm) (i T : Nat) : Prop where
  | static : i < 3 → T = img.pageTables + 4096 * i → OwnTable p i T
  | frame (k : Nat) : 3 ≤ i → 256 ≤ k → k < p.totalPages → p.bit k = true →
      T = pmmStart + k * pageSize → OwnTable p i T

/-- **The paging invariant.** -/
structure PagingInv (s : State Flat) : Prop where
  pmm : s.pmm.Inv
  reserved : ∀ i, i < 256 → s.pmm.bit i = true
  low : ∀ i, i < 3 → Present img s.mem.table i
  own : ∀ i, i < 1024 → Present img s.mem.table i →
    OwnTable img s.pmm i (tableOf img s.mem.table i)
  inj : ∀ i j, i < 1024 → j < 1024 → Present img s.mem.table i → Present img s.mem.table j →
    tableOf img s.mem.table i = tableOf img s.mem.table j → i = j

section Apart

variable {img} {p : Pmm} {i T : Nat}

theorem OwnTable.aligned (h : OwnTable img p i T) : T % 4096 = 0 := by
  have := img.ptAligned
  cases h with
  | static _ hT => omega
  | frame k _ _ _ _ hT => simp at hT; omega

theorem OwnTable.range (hp : p.totalPages ≤ 2304) (h : OwnTable img p i T) :
    0x100000 ≤ T ∧ T + 4096 ≤ 0xA00000 := by
  have := img.ptLo
  have := img.ptHi
  cases h with
  | static _ hT => omega
  | frame k _ _ hk _ hT => simp at hT; omega

theorem OwnTable.apart_pd (h : OwnTable img p i T) :
    T + 4096 ≤ img.pageDirectory ∨ img.pageDirectory + 4096 ≤ T := by
  have := img.apart
  have := img.pdHi
  cases h with
  | static _ hT => omega
  | frame k _ hk _ _ hT => simp at hT; omega

theorem OwnTable.ne_free {k : Nat} (h : OwnTable img p i T) (hk : 256 ≤ k) (hb : p.bit k = false) :
    T ≠ pmmStart + k * pageSize := by
  have := img.ptHi
  cases h with
  | static _ hT => simp; omega
  | frame k' _ _ _ hb' hT =>
    rintro h
    have : k' = k := by simp at hT h; omega
    subst this
    rw [hb] at hb'
    cases hb'

end Apart

variable {img}

theorem PagingInv.aligned {s : State Flat} (h : PagingInv img s) {i : Nat} (hi : i < 1024)
    (hp : Present img s.mem.table i) : tableOf img s.mem.table i % 4096 = 0 :=
  (h.own i hi hp).aligned

theorem PagingInv.range {s : State Flat} (h : PagingInv img s) {i : Nat} (hi : i < 1024)
    (hp : Present img s.mem.table i) :
    0x100000 ≤ tableOf img s.mem.table i ∧ tableOf img s.mem.table i + 4096 ≤ 0xA00000 :=
  (h.own i hi hp).range h.pmm.total

theorem pdeAt_congr {t t' : Mem}
    (h : ∀ x, img.pageDirectory ≤ x → x < img.pageDirectory + 4096 → t' x = t x) {i : Nat}
    (hi : i < 1024) : pdeAt img t' i = pdeAt img t i :=
  load32_congr fun x h1 h2 => h x (by omega) (by omega)

theorem tableOf_congr {t t' : Mem} {i : Nat} (h : pdeAt img t' i = pdeAt img t i) :
    tableOf img t' i = tableOf img t i := by
  unfold tableOf
  rw [h]

theorem present_congr {t t' : Mem} {i : Nat} (h : pdeAt img t' i = pdeAt img t i) :
    Present img t' i ↔ Present img t i := by
  unfold Present
  rw [h]

/-! ## Writing one entry -/

theorem pdIndex_lt {v : Nat} (h : v < 2 ^ 32) : pdIndex v < 1024 := by
  unfold pdIndex
  omega

theorem ptIndex_lt (v : Nat) : ptIndex v < 1024 := Nat.mod_lt _ (by omega)

theorem samePage_iff {v w : Nat} :
    pdIndex v = pdIndex w ∧ ptIndex v = ptIndex w ↔ v / 4096 = w / 4096 := by
  unfold pdIndex ptIndex
  omega

/-- **Writing an entry of a present table** changes the mapping of one page. -/
theorem setEntry_spec {s : State Flat} (h : PagingInv img s) {v e : Nat} (hv : v < 2 ^ 32)
    (he : e < 2 ^ 32) (hp : Present img s.mem.table (pdIndex v)) {t : Mem}
    (ht : t = store32 s.mem.table (tableOf img s.mem.table (pdIndex v) + 4 * ptIndex v) e) :
    PagingInv img (s.setTable t) ∧ (∀ i, i < 1024 → pdeAt img t i = pdeAt img s.mem.table i) ∧
      ∀ w, w < 2 ^ 32 → entryAt img t w =
        if w / 4096 = v / 4096 then e else entryAt img s.mem.table w := by
  have hi := pdIndex_lt hv
  have hj := ptIndex_lt v
  have hal := h.aligned hi hp
  have hpd := (h.own _ hi hp).apart_pd
  have hpde : ∀ i, i < 1024 → pdeAt img t i = pdeAt img s.mem.table i := by
    intro i hi
    refine pdeAt_congr (fun x h1 h2 => ?_) hi
    rw [ht]
    exact store32_other (by omega)
  have htab : ∀ i, i < 1024 → tableOf img t i = tableOf img s.mem.table i :=
    fun i hi => tableOf_congr (hpde i hi)
  have hpres : ∀ i, i < 1024 → (Present img t i ↔ Present img s.mem.table i) :=
    fun i hi => present_congr (hpde i hi)
  refine ⟨⟨h.pmm, h.reserved, fun i hi => ?_, fun i hi hpi => ?_, fun i j hi hj hpi hpj => ?_⟩,
    hpde, ?_⟩
  · exact (hpres i (by omega)).mpr (h.low i hi)
  · show OwnTable img s.pmm i (tableOf img t i)
    rw [htab i hi]
    exact h.own i hi ((hpres i hi).mp hpi)
  · show tableOf img t i = tableOf img t j → i = j
    rw [htab i hi, htab j hj]
    exact h.inj i j hi hj ((hpres i hi).mp hpi) ((hpres j hj).mp hpj)
  · intro w hw
    have hi' := pdIndex_lt hw
    have hj' := ptIndex_lt w
    unfold entryAt
    simp only [hpres _ hi', htab _ hi']
    by_cases hpage : w / 4096 = v / 4096
    · obtain ⟨h1, h2⟩ := samePage_iff.mpr hpage
      rw [if_pos hpage, h1, h2, if_pos hp, ht, load32_store32 he]
    · rw [if_neg hpage]
      split
      · next hpw =>
        have hal' := h.aligned hi' hpw
        rw [ht, load32_store32_ne]
        by_cases hslot : pdIndex w = pdIndex v
        · have : ptIndex w ≠ ptIndex v := fun h => hpage (samePage_iff.mp ⟨hslot, h⟩)
          rw [hslot]
          omega
        · have hne : tableOf img s.mem.table (pdIndex w) ≠ tableOf img s.mem.table (pdIndex v) :=
            fun he => hslot (h.inj _ _ hi' hi hpw hp he)
          omega
      · rfl

/-! ## A fresh table -/

/-- The entry that points at a new table. -/
def newPde (T v : Nat) : Nat :=
  T ||| pagePresent ||| pageWrite ||| (if v ≥ userZoneStart then pageUser else 0)

theorem newPde_eq {T v : Nat} (hT : T % 4096 = 0) :
    newPde T v = T + 3 ∨ newPde T v = T + 7 := by
  unfold newPde
  rw [or_flags T pagePresent hT (by decide)]
  split
  · right
    rw [show T + pagePresent = T ||| pagePresent from (or_flags T _ hT (by decide)).symm]
    rw [Nat.or_assoc, Nat.or_assoc]
    exact or_flags T _ hT (by decide)
  · left
    rw [show T + pagePresent = T ||| pagePresent from (or_flags T _ hT (by decide)).symm]
    rw [Nat.or_assoc, Nat.or_assoc]
    exact or_flags T _ hT (by decide)

/-- From `t₀` to `t`, slot `i` of the directory got the cleared table at `T`, and nothing else
has changed. -/
structure Linked (img : Image) (t₀ t : Mem) (i T : Nat) : Prop where
  present : Present img t i
  table : tableOf img t i = T
  pde : ∀ j, j < 1024 → j ≠ i → pdeAt img t j = pdeAt img t₀ j
  zero : ∀ j, j < 1024 → load32 t (T + 4 * j) = 0
  rest : ∀ T', T' + 4096 ≤ T ∨ T + 4096 ≤ T' →
    T' + 4096 ≤ img.pageDirectory ∨ img.pageDirectory + 4096 ≤ T' →
    ∀ j, j < 1024 → load32 t (T' + 4 * j) = load32 t₀ (T' + 4 * j)

theorem linked_store {t₀ t₁ : Mem} {i T v : Nat} (hi : i < 1024) (hT : T % 4096 = 0)
    (hTlo : img.pageDirectory + 4096 ≤ T) (hThi : T < 2 ^ 31)
    (hzero : ∀ j, j < 1024 → load32 t₁ (T + 4 * j) = 0)
    (hsame : SameOff (fun x => T ≤ x ∧ x < T + 4096) t₀ t₁) :
    Linked img t₀ (store32 t₁ (img.pageDirectory + 4 * i) (newPde T v)) i T := by
  have hlt : newPde T v < 2 ^ 32 := by
    rcases newPde_eq (v := v) hT with h | h <;> omega
  have hnew : pdeAt img (store32 t₁ (img.pageDirectory + 4 * i) (newPde T v)) i = newPde T v :=
    load32_store32 hlt
  constructor
  · unfold Present
    rw [hnew]
    rcases newPde_eq (v := v) hT with h | h <;> omega
  · unfold tableOf
    rw [hnew]
    rcases newPde_eq (v := v) hT with h | h <;> omega
  · intro j hj hne
    unfold pdeAt
    rw [load32_store32_ne (by omega)]
    exact hsame.load32 fun x h1 h2 => by omega
  · intro j hj
    rw [load32_store32_ne (by omega)]
    exact hzero j hj
  · intro T' hoff hpd j hj
    rw [load32_store32_ne (by omega)]
    exact hsame.load32 fun x h1 h2 => by omega

section Link

variable {s : State Flat} {t : Mem} {i k : Nat} (h : PagingInv img s)
  (hl : Linked img s.mem.table t i (pmmStart + k * pageSize)) (hk256 : 256 ≤ k)
  (hb : s.pmm.bit k = false)
include hl

theorem Linked.present_iff {j : Nat} (hj : j < 1024) (hne : j ≠ i) :
    Present img t j ↔ Present img s.mem.table j := present_congr (hl.pde j hj hne)

theorem Linked.tableOf_eq {j : Nat} (hj : j < 1024) (hne : j ≠ i) :
    tableOf img t j = tableOf img s.mem.table j := tableOf_congr (hl.pde j hj hne)

include h hk256 hb

theorem Linked.fresh {j : Nat} (hj : j < 1024) (hne : j ≠ i) (hp : Present img t j) :
    tableOf img t j ≠ pmmStart + k * pageSize := by
  rw [hl.tableOf_eq hj hne]
  exact (h.own j hj ((hl.present_iff hj hne).mp hp)).ne_free hk256 hb

theorem Linked.inv (hi3 : 3 ≤ i) (hk : k < s.pmm.totalPages) :
    PagingInv img { s.setTable t with pmm := s.pmm.take k } := by
  refine ⟨h.pmm.take hk hb, fun j hj => ?_, fun j hj => ?_, fun j hj hp => ?_,
    fun j j' hj hj' hp hp' heq => ?_⟩
  · show (s.pmm.take k).bit j = true
    rw [s.pmm.bit_take j (h.pmm.lt_bits hk), h.reserved j hj, ite_self]
  · exact (hl.present_iff (by omega) (by omega)).mpr (h.low j hj)
  · show OwnTable img (s.pmm.take k) j (tableOf img t j)
    by_cases hne : j = i
    · subst hne
      refine .frame k hi3 hk256 (by simpa using hk) ?_ hl.table
      rw [s.pmm.bit_take k (h.pmm.lt_bits hk), if_pos rfl]
    · rw [hl.tableOf_eq hj hne]
      cases h.own j hj ((hl.present_iff hj hne).mp hp) with
      | static h1 h2 => exact .static h1 h2
      | frame k' h1 h2 h3 h4 h5 =>
        refine .frame k' h1 h2 (by simpa using h3) ?_ h5
        rw [s.pmm.bit_take k' (h.pmm.lt_bits hk), h4, ite_self]
  · by_cases hji : j = i <;> by_cases hji' : j' = i
    · exact hji.trans hji'.symm
    · exact absurd (heq.symm.trans (by rw [hji]; exact hl.table)) (hl.fresh h hk256 hb hj' hji' hp')
    · exact absurd (heq.trans (by rw [hji']; exact hl.table)) (hl.fresh h hk256 hb hj hji hp)
    · refine h.inj j j' hj hj' ((hl.present_iff hj hji).mp hp)
        ((hl.present_iff hj' hji').mp hp') ?_
      rw [← hl.tableOf_eq hj hji, ← hl.tableOf_eq hj' hji']
      exact heq

/-- No mapping changes: the table is empty, and there was none before. -/
theorem Linked.entries (hp : ¬ Present img s.mem.table i) {w : Nat} (hw : w < 2 ^ 32) :
    entryAt img t w = entryAt img s.mem.table w := by
  have hiw := pdIndex_lt hw
  have hjw := ptIndex_lt w
  unfold entryAt
  by_cases hne : pdIndex w = i
  · rw [hne, if_pos hl.present, if_neg hp, hl.table]
    exact hl.zero _ hjw
  · simp only [hl.present_iff hiw hne, hl.tableOf_eq hiw hne]
    split
    · next hpw =>
      have hal := h.aligned hiw hpw
      have hneT := hl.fresh h hk256 hb hiw hne ((hl.present_iff hiw hne).mpr hpw)
      rw [hl.tableOf_eq hiw hne] at hneT
      simp only [pmmStart, pageSize] at hneT
      refine hl.rest _ ?_ (h.own _ hiw hpw).apart_pd _ hjw
      simp only [pmmStart, pageSize]
      omega
    · rfl

end Link

/-- **A fresh table** is present, empty, and changes no mapping. -/
theorem newPageTable_spec {s : State Flat} (h : PagingInv img s) {v : Nat} (hv : v < 2 ^ 32)
    (hp : ¬ Present img s.mem.table (pdIndex v)) :
    (∃ k t, k < s.pmm.totalPages ∧ s.pmm.bit k = false ∧ (∀ j, j < k → s.pmm.bit j = true) ∧
      newPageTable img v (pdIndex v) s = .ok () { s.setTable t with pmm := s.pmm.take k } ∧
      PagingInv img { s.setTable t with pmm := s.pmm.take k } ∧ Present img t (pdIndex v) ∧
      tableOf img t (pdIndex v) = pmmStart + k * pageSize ∧
      (∀ i, i < 1024 → i ≠ pdIndex v → pdeAt img t i = pdeAt img s.mem.table i) ∧
      ∀ w, w < 2 ^ 32 → entryAt img t w = entryAt img s.mem.table w) ∨
    ((∀ j, j < s.pmm.totalPages → s.pmm.bit j = true) ∧
      newPageTable img v (pdIndex v) s = .error (.panic "PMM out of memory\n" []) s) := by
  rcases pmmAllocPage_spec h.pmm with ⟨k, hk, hb, hmin, hr⟩ | ⟨hall, hr⟩
  swap
  · refine .inr ⟨hall, ?_⟩
    unfold newPageTable
    rw [bind_of_error hr]
  left
  have htot := h.pmm.total
  have hk256 : 256 ≤ k := by
    by_contra hlt
    rw [h.reserved k (by omega)] at hb
    cases hb
  have hpdHi := img.pdHi
  have hi := pdIndex_lt hv
  have hi3 : 3 ≤ pdIndex v := by
    by_contra hlt
    exact hp (h.low _ (by omega))
  -- the frame `T` and the memory after it is cleared
  obtain ⟨T, hT⟩ : ∃ T, T = pmmStart + k * pageSize := ⟨_, rfl⟩
  have hT' : T = 0x100000 + k * 4096 := hT
  obtain ⟨t₁, hclr, hzero, hsame⟩ := fill_spec (a := T) (n := 1024)
    (s := { s with pmm := s.pmm.take k }) (flatTable_plain _ fun _ => True) (fun _ => 0)
    (fun _ _ => by decide) fun _ _ _ => trivial
  have hclr : forUp (fun i => stTable (T + 4 * i) 0) 0 1024 { s with pmm := s.pmm.take k } =
    .ok () { s.setTable t₁ with pmm := s.pmm.take k } := hclr
  have hsame : SameOff (fun x => T ≤ x ∧ x < T + 4096) s.mem.table t₁ := hsame
  have hl : Linked img s.mem.table (store32 t₁ (img.pageDirectory + 4 * pdIndex v) (newPde T v))
      (pdIndex v) T := linked_store hi (by omega) (by omega) (by omega) hzero hsame
  have hrun : newPageTable img v (pdIndex v) s = .ok () { s.setTable
      (store32 t₁ (img.pageDirectory + 4 * pdIndex v) (newPde T v)) with pmm := s.pmm.take k } := by
    unfold newPageTable
    rw [bind_of_ok hr, ← hT, bind_of_ok hclr, stTable_flat]
    rfl
  rw [hT] at hl
  rw [hT] at hrun
  exact ⟨k, _, hk, hb, hmin, hrun, hl.inv h hk256 hb hi3 hk, hl.present, hl.table, hl.pde,
    fun w hw => hl.entries h hk256 hb hp hw⟩

/-! ## The tables `paging_init` builds -/

/-- The tables of the identity mapping of the first 12 MB. -/
structure InitialTables (img : Image) (t : Mem) : Prop where
  pde : ∀ i, i < 1024 → pdeAt img t i = if i < 3 then img.pageTables + 4096 * i + 3 else 0
  pte : ∀ i j, i < 3 → j < 1024 →
    load32 t (img.pageTables + 4096 * i + 4 * j) = (i * 1024 + j) * 4096 + 3

theorem identityEntry_eq {t i : Nat} (ht : t < 3) (hi : i < 1024) :
    identityEntry t i = (t * 1024 + i) * 4096 + 3 := by
  unfold identityEntry
  simp only [pageSize]
  rw [and_maskPage _ (by omega), show (t * 1024 + i) * 4096 % 4096 = 0 by omega, Nat.sub_zero,
    Nat.or_assoc]
  exact or_flags _ _ (by omega) (by decide)

/-- The words of the page directory and the static tables. -/
def StaticTables (img : Image) (x : Nat) : Prop :=
  img.pageDirectory ≤ x ∧ x < img.pageDirectory + 4096 ∨
    img.pageTables ≤ x ∧ x < img.pageTables + 3 * 4096

variable (img) in
/-- **The loops of `paging_init`**, through any port that is plain on the static
tables. -/
theorem pagingTables_spec {M : Type} [Bus M] {P : Port M} (hP : ∀ a, P.loc a = .table a)
    {s : State M} (h : Plain P s.mem (StaticTables img)) :
    ∃ t, (do
        forUp (fun i => stTable (img.pageDirectory + 4 * i) 0) 0 1024
        forUp (fun t => do
          forUp (fun i => stTable (img.pageTables + 4096 * t + 4 * i) (identityEntry t i)) 0 1024
          stTable (img.pageDirectory + 4 * t)
            ((img.pageTables + 4096 * t) ||| pagePresent ||| pageWrite)) 0 3 : K M Unit) s =
        .ok () (P.put s t) ∧
      InitialTables img t ∧ SameOff (StaticTables img) (P.view s) t := by
  have hal := img.ptAligned
  have hap := img.apart
  have hpdHi := img.pdHi
  have hptHi := img.ptHi
  have hst : ∀ a v, (storeAt (P.loc a) v : K M Unit) = stTable a v := by
    intro a v
    rw [hP]
    rfl
  obtain ⟨t₀, hr₀, h0, hs₀⟩ := fill_spec h (a := img.pageDirectory) (n := 1024) (fun _ => 0)
    (fun _ _ => by decide) fun x h1 h2 => .inl ⟨h1, by omega⟩
  have hs₀ : SameOff (StaticTables img) (P.view s) t₀ := hs₀.mono fun x hx => .inl ⟨hx.1, by omega⟩
  simp only [hst] at hr₀
  rw [bind_of_ok hr₀]
  have := forUp_total (f := fun t => (do
      forUp (fun i => stTable (img.pageTables + 4096 * t + 4 * i) (identityEntry t i)) 0 1024
      stTable (img.pageDirectory + 4 * t)
        ((img.pageTables + 4096 * t) ||| pagePresent ||| pageWrite) : K M Unit))
    (fun n u => ∃ t, u = P.put s t ∧
      (∀ i, i < 1024 → pdeAt img t i = if i < n then img.pageTables + 4096 * i + 3 else 0) ∧
      (∀ i j, i < n → j < 1024 →
        load32 t (img.pageTables + 4096 * i + 4 * j) = (i * 1024 + j) * 4096 + 3) ∧
      SameOff (StaticTables img) (P.view s) t)
    (l := 0) (n := 3) (s := P.put s t₀)
    ⟨t₀, rfl, fun i hi => h0 i hi, fun i j hi => by omega, hs₀⟩ ?_
  · obtain ⟨_, hr, t, rfl, hpde, hpte, hs⟩ := this
    exact ⟨t, hr, ⟨hpde, hpte⟩, hs⟩
  · -- one table: its entries, then its directory slot
    rintro n _ - hn ⟨t, rfl, hpde, hpte, hs⟩
    obtain ⟨t₁, hr₁, h1, hs₁⟩ := fill_spec (h.put hs) (a := img.pageTables + 4096 * n) (n := 1024)
      (identityEntry n) (fun i hi => by rw [identityEntry_eq (by omega) hi]; omega)
      fun x h1 h2 => .inr ⟨by omega, by omega⟩
    simp only [hst, P.put_put, P.view_put] at hr₁ hs₁
    have hs' : SameOff (StaticTables img) (P.view s) t₁ :=
      hs.trans (hs₁.mono fun x hx => .inr ⟨by omega, by omega⟩)
    have hst₁ := h.store hs' (a := img.pageDirectory + 4 * n)
      (fun x h1 h2 => .inl ⟨by omega, by omega⟩)
      ((img.pageTables + 4096 * n) ||| pagePresent ||| pageWrite)
    rw [hst] at hst₁
    have hval : (img.pageTables + 4096 * n) ||| pagePresent ||| pageWrite =
        img.pageTables + 4096 * n + 3 := by
      rw [Nat.or_assoc]
      exact or_flags _ _ (by omega) (by decide)
    refine ⟨_, by rw [bind_of_ok hr₁, hst₁], _, rfl, fun i hi => ?_, fun i j hi hj => ?_,
      hs'.store32 fun x h1 h2 => .inl ⟨by omega, by omega⟩⟩
    · unfold pdeAt
      rw [hval]
      by_cases hin : i = n
      · rw [hin, load32_store32 (by omega), if_pos (by omega)]
      · rw [load32_store32_ne (by omega), hs₁.load32 fun x h1 h2 => by omega]
        refine (hpde i hi).trans ?_
        simp only [show i < n + 1 ↔ i < n by omega]
    · rw [load32_store32_ne (by omega)]
      by_cases hin : i = n
      · rw [hin, h1 j hj, identityEntry_eq (by omega) hj]
      · rw [hs₁.load32 fun x h1 h2 => by omega]
        exact hpte i j (by omega) hj

end Kfs
