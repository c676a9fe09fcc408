import Kfs.PagingInv

/-!
# The page tables implement a flat map

One specification for each function of `paging.c` over `entryAt`, the tables
`paging_init` builds, and the theorem about runs: what `vmm_get_mapping`
returns is decided by the last call that named its page.
-/

namespace Kfs

open Kfs.Lib

variable {img : Image}

/-! ## `virt_to_pte` -/

theorem pdIndex_eq {v : Nat} (hv : v < 2 ^ 32) : (v >>> 22) &&& 0x3FF = pdIndex v := by
  rw [and_ten, Nat.shiftRight_eq_div_pow]
  exact Nat.mod_eq_of_lt (pdIndex_lt hv)

theorem ptIndex_eq (v : Nat) : (v >>> 12) &&& 0x3FF = ptIndex v := by
  rw [and_ten, Nat.shiftRight_eq_div_pow]
  rfl

theorem and_pagePresent (e : Nat) : e &&& pagePresent = e % 2 := Nat.and_one_is_mod e

theorem tableOf_eq (t : Mem) (i : Nat) : pdeAt img t i &&& 0xFFFFF000 = tableOf img t i :=
  and_maskPage _ (load32_lt t _)

section Walk

variable {M : Type} [Bus M] {s : State M} {t : Mem} {v : Nat}

/-- In state `s` the directory entry of `v` reads as in `t`. -/
def ReadsPde (img : Image) (s : State M) (t : Mem) (v : Nat) : Prop :=
  ldTable (img.pageDirectory + 4 * pdIndex v) s = .ok (pdeAt img t (pdIndex v)) s

theorem virtToPte_present (hv : v < 2 ^ 32) (hld : ReadsPde img s t v)
    (hp : Present img t (pdIndex v)) (create : Bool) :
    virtToPte img v create s = .ok (tableOf img t (pdIndex v) + 4 * ptIndex v) s := by
  have hpde : pdeAt img t (pdIndex v) &&& pagePresent ≠ 0 := by
    rw [and_pagePresent, show _ % 2 = 1 from hp]
    decide
  unfold virtToPte
  simp only [pdIndex_eq hv, ptIndex_eq]
  rw [bind_of_ok hld]
  simp only [tableOf_eq, hpde, ↓reduceIte, pure_apply]

theorem virtToPte_absent (hv : v < 2 ^ 32) (hld : ReadsPde img s t v)
    (hp : ¬ Present img t (pdIndex v)) : virtToPte img v false s = .ok 0 s := by
  have hpde : pdeAt img t (pdIndex v) &&& pagePresent = 0 := by
    rw [and_pagePresent]
    unfold Present at hp
    omega
  unfold virtToPte
  simp only [pdIndex_eq hv, ptIndex_eq]
  rw [bind_of_ok hld]
  simp only [hpde, ↓reduceIte, Bool.not_false, pure_apply]

theorem virtToPte_create (hv : v < 2 ^ 32) (hld : ReadsPde img s t v)
    (hp : ¬ Present img t (pdIndex v)) :
    virtToPte img v true s = (do
      newPageTable img v (pdIndex v)
      let pde ← ldTable (img.pageDirectory + 4 * pdIndex v)
      return (pde &&& 0xFFFFF000) + 4 * ptIndex v : K M Nat) s := by
  have hpde : pdeAt img t (pdIndex v) &&& pagePresent = 0 := by
    rw [and_pagePresent]
    unfold Present at hp
    omega
  unfold virtToPte
  simp only [pdIndex_eq hv, ptIndex_eq]
  rw [bind_of_ok hld]
  simp only [hpde, ↓reduceIte, Bool.not_true, Bool.false_eq_true]

/-- The entry `vmm_map_page` writes. -/
def mapEntry (phys flags : Nat) : Nat := (phys &&& 0xFFFFF000) ||| (flags &&& 0xFFF) ||| pagePresent

theorem mapEntry_lt (phys flags : Nat) : mapEntry phys flags < 2 ^ 32 := by
  have h1 : phys &&& 0xFFFFF000 < 2 ^ 32 := Nat.and_lt_two_pow _ (by decide)
  have h2 : flags &&& 0xFFF < 2 ^ 32 := Nat.and_lt_two_pow _ (by decide)
  exact Nat.or_lt_two_pow (Nat.or_lt_two_pow h1 h2) (by decide)

/-- Every function of `paging.c` ends in one access to the entry its walk found. -/
theorem vmmMapPage_walk {s' : State M} {pte : Nat} (phys flags : Nat)
    (hw : virtToPte img v true s = .ok pte s') (hpte : pte ≠ 0) :
    vmmMapPage img v phys flags s =
      (do stTable pte (mapEntry phys flags); return 0 : K M Int) s' := by
  unfold vmmMapPage
  rw [bind_of_ok hw, if_neg hpte]
  rfl

theorem vmmUnmapPage_walk {s' : State M} {pte : Nat} (hw : virtToPte img v false s = .ok pte s')
    (hpte : pte ≠ 0) : vmmUnmapPage img v s = stTable pte 0 s' := by
  unfold vmmUnmapPage
  rw [bind_of_ok hw, if_neg hpte]

theorem vmmGetMapping_walk {s' : State M} {pte : Nat} (hw : virtToPte img v false s = .ok pte s')
    (hpte : pte ≠ 0) : vmmGetMapping img v s = ldTable pte s' := by
  unfold vmmGetMapping
  rw [bind_of_ok hw, if_neg hpte]

end Walk

theorem readsPde_flat (s : State Flat) (v : Nat) : ReadsPde img s s.mem.table v := rfl

/-! ## The operations on the flat map -/

/-- **`vmm_get_mapping`** reads the entry of its page. -/
theorem vmmGetMapping_spec {s : State Flat} (h : PagingInv img s) {v : Nat} (hv : v < 2 ^ 32) :
    vmmGetMapping img v s = .ok (entryAt img s.mem.table v) s := by
  unfold entryAt
  by_cases hp : Present img s.mem.table (pdIndex v)
  · have hlo := (h.range (pdIndex_lt hv) hp).1
    rw [vmmGetMapping_walk (virtToPte_present hv (readsPde_flat s v) hp false) (by omega),
      if_pos hp]
    rfl
  · unfold vmmGetMapping
    rw [bind_of_ok (virtToPte_absent hv (readsPde_flat s v) hp), if_neg hp]
    rfl

/-- The table store after entry `v` is set to `e`. -/
def Updates (img : Image) (t t' : Mem) (v e : Nat) : Prop :=
  ∀ w, w < 2 ^ 32 → entryAt img t' w = if w / 4096 = v / 4096 then e else entryAt img t w

/-- **`vmm_unmap_page`** clears the entry of its page. -/
theorem vmmUnmapPage_spec {s : State Flat} (h : PagingInv img s) {v : Nat} (hv : v < 2 ^ 32) :
    ∃ t, vmmUnmapPage img v s = .ok () (s.setTable t) ∧ PagingInv img (s.setTable t) ∧
      (∀ i, i < 1024 → pdeAt img t i = pdeAt img s.mem.table i) ∧
      Updates img s.mem.table t v 0 := by
  by_cases hp : Present img s.mem.table (pdIndex v)
  · have hlo := (h.range (pdIndex_lt hv) hp).1
    obtain ⟨hinv, hpde, hent⟩ := setEntry_spec h hv (e := 0) (by omega) hp rfl
    refine ⟨_, ?_, hinv, hpde, hent⟩
    exact vmmUnmapPage_walk (virtToPte_present hv (readsPde_flat s v) hp false) (by omega)
  · refine ⟨s.mem.table, ?_, h, fun _ _ => rfl, fun w hw => ?_⟩
    · unfold vmmUnmapPage
      rw [bind_of_ok (virtToPte_absent hv (readsPde_flat s v) hp)]
      rfl
    · split
      · next hpage =>
        have hidx := (samePage_iff.mpr hpage).1
        unfold entryAt
        rw [hidx, if_neg hp]
      · rfl

/-- Once a fresh table is linked for an absent slot, `vmm_map_page` goes on as if it had been
there. -/
theorem vmmMapPage_create {s s₁ : State Flat} {v : Nat} (phys flags : Nat) (hv : v < 2 ^ 32)
    (hp : ¬ Present img s.mem.table (pdIndex v))
    (hnew : newPageTable img v (pdIndex v) s = .ok () s₁) (h₁ : PagingInv img s₁)
    (hpres : Present img s₁.mem.table (pdIndex v)) :
    ∃ t, vmmMapPage img v phys flags s = .ok 0 (s₁.setTable t) ∧ PagingInv img (s₁.setTable t) ∧
      (∀ i, i < 1024 → pdeAt img t i = pdeAt img s₁.mem.table i) ∧
      Updates img s₁.mem.table t v (mapEntry phys flags) := by
  have hwalk : virtToPte img v true s =
      .ok (tableOf img s₁.mem.table (pdIndex v) + 4 * ptIndex v) s₁ := by
    rw [virtToPte_create hv (readsPde_flat s v) hp, bind_of_ok hnew, bind_of_ok (ldTable_flat _ _)]
    simp only [← tableOf_eq]
    rfl
  have hlo := (h₁.range (pdIndex_lt hv) hpres).1
  obtain ⟨hinv, hpde, hent⟩ := setEntry_spec h₁ hv (mapEntry_lt phys flags) hpres rfl
  exact ⟨_, vmmMapPage_walk phys flags hwalk (by omega), hinv, hpde, hent⟩

/-- **`vmm_map_page`** sets the entry of its page. It takes a frame for a table when
the page's slot has none, and panics when there is no frame left for one. -/
theorem vmmMapPage_spec {s : State Flat} (h : PagingInv img s) {v : Nat} (phys flags : Nat)
    (hv : v < 2 ^ 32) :
    (Present img s.mem.table (pdIndex v) ∧
      ∃ t, vmmMapPage img v phys flags s = .ok 0 (s.setTable t) ∧ PagingInv img (s.setTable t) ∧
        (∀ i, i < 1024 → pdeAt img t i = pdeAt img s.mem.table i) ∧
        Updates img s.mem.table t v (mapEntry phys flags)) ∨
    (¬ Present img s.mem.table (pdIndex v) ∧
      ∃ k t, k < s.pmm.totalPages ∧ s.pmm.bit k = false ∧ (∀ j, j < k → s.pmm.bit j = true) ∧
        vmmMapPage img v phys flags s = .ok 0 { s.setTable t with pmm := s.pmm.take k } ∧
        PagingInv img { s.setTable t with pmm := s.pmm.take k } ∧
        Present img t (pdIndex v) ∧ tableOf img t (pdIndex v) = pmmStart + k * pageSize ∧
        (∀ i, i < 1024 → i ≠ pdIndex v → pdeAt img t i = pdeAt img s.mem.table i) ∧
        Updates img s.mem.table t v (mapEntry phys flags)) ∨
    (¬ Present img s.mem.table (pdIndex v) ∧ (∀ j, j < s.pmm.totalPages → s.pmm.bit j = true) ∧
      vmmMapPage img v phys flags s = .error (.panic "PMM out of memory\n" []) s) := by
  have he := mapEntry_lt phys flags
  by_cases hp : Present img s.mem.table (pdIndex v)
  · have hlo := (h.range (pdIndex_lt hv) hp).1
    obtain ⟨hinv, hpde, hent⟩ := setEntry_spec h hv he hp rfl
    refine .inl ⟨hp, _, ?_, hinv, hpde, hent⟩
    exact vmmMapPage_walk phys flags (virtToPte_present hv (readsPde_flat s v) hp true) (by omega)
  refine .inr ?_
  rcases newPageTable_spec h hv hp with
    ⟨k, t₁, hk, hb, hmin, hnew, hinv₁, hpres, htab, hpde₁, hent₁⟩ | ⟨hall, hnew⟩
  swap
  · refine .inr ⟨hp, hall, ?_⟩
    unfold vmmMapPage
    refine bind_of_error ?_
    rw [virtToPte_create hv (readsPde_flat s v) hp]
    exact bind_of_error hnew
  left
  obtain ⟨t, hrun, hinv, hpde, hent⟩ := vmmMapPage_create phys flags hv hp hnew hinv₁ hpres
  refine ⟨hp, k, t, hk, hb, hmin, hrun, hinv, ?_, ?_, fun i hi hne => ?_, fun w hw => ?_⟩
  · exact (present_congr (hpde _ (pdIndex_lt hv))).mpr hpres
  · exact (tableOf_congr (hpde _ (pdIndex_lt hv))).trans htab
  · rw [hpde i hi]
    exact hpde₁ i hi hne
  · rw [hent w hw]
    split
    · rfl
    · exact hent₁ w hw

theorem vmmMapPage_returns {s : State Flat} (h : PagingInv img s) {v : Nat} (phys flags : Nat)
    (hv : v < 2 ^ 32) {k : Nat} (hk : k < s.pmm.totalPages) (hb : s.pmm.bit k = false) :
    ∃ s', vmmMapPage img v phys flags s = .ok 0 s' ∧ PagingInv img s' := by
  rcases vmmMapPage_spec h phys flags hv with ⟨-, t, he, hinv, -⟩ |
    ⟨-, k, t, -, -, -, he, hinv, -⟩ |
    ⟨-, hall, -⟩
  · exact ⟨_, he, hinv⟩
  · exact ⟨_, he, hinv⟩
  · rw [hall k hk] at hb
    cases hb

/-! ## `paging_init` -/

variable (img) in
/-- **`paging_init`** builds the identity tables and loads them. -/
theorem pagingInit_spec (s : State Flat) :
    ∃ t, pagingInit img s = .ok () { s with mem := { s.mem with
        table := t, cr3 := img.pageDirectory, cr0 := s.mem.cr0 ||| 1 <<< 16 } } ∧
      InitialTables img t := by
  obtain ⟨t, hr, hinit, -⟩ := pagingTables_spec img (P := flatTable) (fun _ => rfl)
    (flatTable_plain s.mem _)
  refine ⟨t, ?_, hinit⟩
  obtain ⟨_, s₁, hr₁, hr₂⟩ := bind_eq_ok.mp hr
  unfold pagingInit
  rw [bind_of_ok hr₁, bind_of_ok hr₂]
  rfl

theorem InitialTables.present {t : Mem} (h : InitialTables img t) {i : Nat} (hi : i < 1024) :
    Present img t i ↔ i < 3 := by
  have := img.ptAligned
  unfold Present
  rw [h.pde i hi]
  split <;> omega

theorem InitialTables.tableOf {t : Mem} (h : InitialTables img t) {i : Nat} (hi : i < 3) :
    tableOf img t i = img.pageTables + 4096 * i := by
  have := img.ptAligned
  unfold Kfs.tableOf
  rw [h.pde i (by omega), if_pos hi]
  omega

theorem InitialTables.entryAt {t : Mem} (h : InitialTables img t) {w : Nat} (hw : w < 2 ^ 32) :
    entryAt img t w = if w < 0xC00000 then w - w % 4096 + 3 else 0 := by
  have hi := pdIndex_lt hw
  have hj := ptIndex_lt w
  unfold Kfs.entryAt
  simp only [h.present hi]
  by_cases hlow : pdIndex w < 3
  · rw [if_pos hlow, h.tableOf hlow, h.pte _ _ hlow hj]
    unfold pdIndex ptIndex at *
    rw [if_pos (by omega)]
    omega
  · rw [if_neg hlow]
    unfold pdIndex at hlow
    rw [if_neg (by omega)]

theorem InitialTables.inv {s : State Flat} (h : InitialTables img s.mem.table) (hp : s.pmm.Inv)
    (hres : ∀ i, i < 256 → s.pmm.bit i = true) : PagingInv img s where
  pmm := hp
  reserved := hres
  low i hi := (h.present (by omega)).mpr hi
  own i hi hpi := by
    have hi3 := (h.present hi).mp hpi
    exact .static hi3 (h.tableOf hi3)
  inj i j hi hj hpi hpj hij := by
    rw [h.tableOf ((h.present hi).mp hpi), h.tableOf ((h.present hj).mp hpj)] at hij
    omega

variable (img) in
/-- After `pmm_init` and `paging_init` the tables are well-formed and map the first
12 MB to themselves. -/
theorem pagingBoot_spec {m : Nat} (hm : pmmStart + pageSize ≤ m) (hm' : m < 2 ^ 32)
    (s : State Flat) :
    ∃ s₁, (do pmmInit m; pagingInit img) s = .ok () s₁ ∧ PagingInv img s₁ ∧
      InitialTables img s₁.mem.table ∧ s₁.pmm.totalPages = pagesOf m ∧
      ∀ j, s₁.pmm.bit j = decide (j < min reservePages (pagesOf m) ∨ pagesOf m ≤ j) := by
  obtain ⟨p, hr, ht, hf, hb⟩ := pmmInit_spec hm hm' s
  obtain ⟨t, hr', hinit⟩ := pagingInit_spec img { s with pmm := p }
  have hres : ∀ i, i < 256 → p.bit i = true := by
    intro i hi
    rw [hb i]
    simp only [reservePages, pageSize]
    exact decide_eq_true (by omega)
  refine ⟨_, (bind_of_ok hr).trans hr', ?_, hinit, ht, hb⟩
  exact InitialTables.inv hinit (pmmInit_inv ht hf hb) hres

/-! ## Runs -/

/-- A call that changes the mapping. -/
inductive MapOp where
  | map (virt phys flags : Nat)
  | unmap (virt : Nat)

def MapOp.virt : MapOp → Nat
  | .map v _ _ => v
  | .unmap v => v

def MapOp.entry : MapOp → Nat
  | .map _ phys flags => (phys &&& 0xFFFFF000) ||| (flags &&& 0xFFF) ||| pagePresent
  | .unmap _ => 0

def MapOp.run (img : Image) : MapOp → K Flat Unit
  | .map v p f => do let _ ← vmmMapPage img v p f
  | .unmap v => vmmUnmapPage img v

def runMaps (img : Image) : List MapOp → K Flat Unit
  | [] => pure ()
  | op :: ops => do op.run img; runMaps img ops

/-- The entry of `w` after `ops`: that of the last call about its page, `start w`
when there is none. -/
def lastEntry (start : Nat → Nat) (ops : List MapOp) (w : Nat) : Nat :=
  match ops.reverse.find? fun op => op.virt >>> 12 == w >>> 12 with
  | some op => op.entry
  | none => start w

/-- The mapping before any call. -/
def initialEntry (w : Nat) : Nat :=
  if w < 0xC00000 then (w &&& 0xFFFFF000) ||| pagePresent ||| pageWrite else 0

/-- **One call** updates the flat map at its page. -/
theorem MapOp.run_spec {s s' : State Flat} (h : PagingInv img s) {op : MapOp}
    (hop : op.virt < 2 ^ 32) (hr : op.run img s = .ok () s') :
    PagingInv img s' ∧ Updates img s.mem.table s'.mem.table op.virt op.entry := by
  cases op with
  | map v phys flags =>
    have hop : v < 2 ^ 32 := hop
    obtain ⟨r, s₁, hm, hr⟩ := bind_eq_ok.mp hr
    cases hr
    rcases vmmMapPage_spec h phys flags hop with ⟨-, t, he, hinv, -, hupd⟩ |
      ⟨-, k, t, -, -, -, he, hinv, -, -, -, hupd⟩ | ⟨-, -, he⟩ <;> rw [he] at hm <;> cases hm
    · exact ⟨hinv, hupd⟩
    · exact ⟨hinv, hupd⟩
  | unmap v =>
    have hop : v < 2 ^ 32 := hop
    obtain ⟨t, he, hinv, -, hupd⟩ := vmmUnmapPage_spec h hop
    have hr : vmmUnmapPage img v s = .ok () s' := hr
    rw [he] at hr
    cases hr
    exact ⟨hinv, hupd⟩

theorem lastEntry_cons (start : Nat → Nat) (op : MapOp) (ops : List MapOp) (w : Nat) :
    lastEntry start (op :: ops) w =
      lastEntry (fun w => if w / 4096 = op.virt / 4096 then op.entry else start w) ops w := by
  unfold lastEntry
  rw [List.reverse_cons, List.find?_append]
  cases ops.reverse.find? fun op => op.virt >>> 12 == w >>> 12 with
  | some op' => rfl
  | none =>
    simp only [Option.none_or, List.find?_cons, List.find?_nil, Nat.shiftRight_eq_div_pow]
    by_cases hpage : w / 4096 = op.virt / 4096
    · simp [hpage]
    · have hne : (op.virt / 4096 == w / 4096) = false := beq_false_of_ne (Ne.symm hpage)
      simp [hpage, hne]

/-- **A run of calls** leaves the entry of the last call about each page. -/
theorem runMaps_spec : ∀ {ops : List MapOp} {s s' : State Flat} {start : Nat → Nat},
    PagingInv img s → (∀ op ∈ ops, op.virt < 2 ^ 32) → runMaps img ops s = .ok () s' →
    (∀ w, w < 2 ^ 32 → entryAt img s.mem.table w = start w) →
    PagingInv img s' ∧ ∀ w, w < 2 ^ 32 → entryAt img s'.mem.table w = lastEntry start ops w
  | [], s, s', start, h, _, hr, hstart => by
    cases hr
    exact ⟨h, hstart⟩
  | op :: ops, s, s', start, h, hops, hr, hstart => by
    obtain ⟨_, s₁, hop, hr⟩ := bind_eq_ok.mp hr
    obtain ⟨h₁, hupd⟩ := MapOp.run_spec h (hops op List.mem_cons_self) hop
    have hstart₁ : ∀ w, w < 2 ^ 32 → entryAt img s₁.mem.table w =
        if w / 4096 = op.virt / 4096 then op.entry else start w :=
      fun w hw => by rw [hupd w hw, hstart w hw]
    obtain ⟨h', hent⟩ := runMaps_spec h₁ (fun o ho => hops o (List.mem_cons_of_mem _ ho)) hr hstart₁
    exact ⟨h', fun w hw => by rw [hent w hw, lastEntry_cons]⟩

theorem initialEntry_eq {w : Nat} (hw : w < 2 ^ 32) :
    initialEntry w = if w < 0xC00000 then w - w % 4096 + 3 else 0 := by
  unfold initialEntry
  rw [and_maskPage w hw, Nat.or_assoc, or_flags _ _ (by omega) (by decide)]
  rfl

/-- **The two-level tables are a flat map.** After `pmm_init`, `paging_init` and any
calls that return, `vmm_get_mapping` answers with the last call about the page,
and with the initial identity mapping where there was none. -/
theorem pageTables_flat_map {m : Nat} (hm : pmmStart + pageSize ≤ m) (hm' : m < 2 ^ 32)
    {ops : List MapOp} (hops : ∀ op ∈ ops, op.virt < 2 ^ 32) {s₀ s : State Flat}
    (hr : (do pmmInit m; pagingInit img; runMaps img ops) s₀ = .ok () s) {w : Nat}
    (hw : w < 2 ^ 32) :
    vmmGetMapping img w s = .ok (lastEntry initialEntry ops w) s := by
  obtain ⟨s₁, hboot, hinv, hinit, -⟩ := pagingBoot_spec img hm hm' s₀
  obtain ⟨_, s₂, h1, h2⟩ := bind_eq_ok.mp hboot
  rw [bind_of_ok h1, bind_of_ok h2] at hr
  have hstart : ∀ w, w < 2 ^ 32 → entryAt img s₁.mem.table w = initialEntry w :=
    fun w hw => by rw [hinit.entryAt hw, initialEntry_eq hw]
  obtain ⟨hinv', hent⟩ := runMaps_spec hinv hops hr hstart
  rw [vmmGetMapping_spec hinv' hw, hent w hw]

/-- A run that takes a table for a new slot: the page mapped reads its entry, an
unmapped one `0`, a page nobody named itself. -/
theorem pageTables_flat_map_readme :
    ∃ s, (do
        pmmInit pmmMaxBytes
        pagingInit Image.readme
        runMaps Image.readme [.map 0x10000000 0x345678 0x2, .unmap 0x400000])
          (State.boot Flat.blank) =
          .ok () s ∧
      vmmGetMapping Image.readme 0x10000ABC s = .ok 0x345003 s ∧
      vmmGetMapping Image.readme 0x400123 s = .ok 0 s ∧
      vmmGetMapping Image.readme 0x600000 s = .ok 0x600003 s := by
  obtain ⟨s₁, hboot, hinv, hinit, ht, hb⟩ := pagingBoot_spec Image.readme
    (m := pmmMaxBytes) (by decide) (by decide) (State.boot Flat.blank)
  obtain ⟨_, s₀', h1, h2⟩ := bind_eq_ok.mp hboot
  -- frame 256 is free, so the table for slot 64 can be allocated
  have hfree : s₁.pmm.bit 256 = false := by rw [hb 256]; decide
  obtain ⟨s₂, hmap, hinv₂⟩ := vmmMapPage_returns hinv 0x345678 0x2 (v := 0x10000000) (by decide)
    (k := 256) (by rw [ht]; decide) hfree
  obtain ⟨t, hunmap, -⟩ := vmmUnmapPage_spec hinv₂ (v := 0x400000) (by decide)
  have hr : (do
      pmmInit pmmMaxBytes
      pagingInit Image.readme
      runMaps Image.readme [.map 0x10000000 0x345678 0x2, .unmap 0x400000])
        (State.boot Flat.blank) =
        .ok () (s₂.setTable t) := by
    rw [bind_of_ok h1, bind_of_ok h2]
    refine (bind_of_ok (t := s₂) (a := ()) ?_).trans ?_
    · exact bind_of_ok hmap
    · exact bind_of_ok hunmap
  have hops : ∀ op ∈ [MapOp.map 0x10000000 0x345678 0x2, .unmap 0x400000], op.virt < 2 ^ 32 := by
    decide
  exact ⟨_, hr, pageTables_flat_map (by decide) (by decide) hops hr (w := 0x10000ABC) (by decide),
    pageTables_flat_map (by decide) (by decide) hops hr (w := 0x400123) (by decide),
    pageTables_flat_map (by decide) (by decide) hops hr (w := 0x600000) (by decide)⟩

end Kfs
