import Kfs.PagingRun

/-!
# The kernel's pages stay the kernel's

The hardware lets user code through to a page only if both levels say so. The
flags of a page-table entry are whatever the caller of `vmm_map_page` passed;
what protects the kernel is the directory. Its slots below `USER_ZONE_START`
are filled by `paging_init`, without `PAGE_USER`, and `virt_to_pte` writes a
directory entry only where there is none. One of these slots is shared with
the user zone, which therefore has no user access there either.

The tables are reached at their physical addresses, as `paging_init` leaves them. With paging
on, a call may remap the page that a table lies on.
-/

namespace Kfs

open Kfs.Lib

variable {img : Image}

variable (img) in
/-- Both levels carry `PAGE_USER` for address `v`. -/
def UserAccess (t : Mem) (v : Nat) : Prop :=
  pdeAt img t (pdIndex v) &&& pageUser ≠ 0 ∧ entryAt img t v &&& pageUser ≠ 0

variable (img) in
/-- The slots that `paging_init` fills are the supervisor's. -/
def LowSupervisor (t : Mem) : Prop := ∀ i, i < 3 → pdeAt img t i &&& pageUser = 0

theorem LowSupervisor.no_access {t : Mem} (h : LowSupervisor img t) {v : Nat}
    (hv : v < userZoneStart) : ¬ UserAccess img t v := by
  rintro ⟨hpde, -⟩
  apply hpde
  apply h
  simp only [userZoneStart, pdIndex] at hv ⊢
  omega

theorem LowSupervisor.congr {t t' : Mem} (h : LowSupervisor img t)
    (hp : ∀ i, i < 3 → pdeAt img t' i = pdeAt img t i) : LowSupervisor img t' := by
  intro i hi
  rw [hp i hi]
  exact h i hi

theorem InitialTables.lowSupervisor {t : Mem} (h : InitialTables img t) : LowSupervisor img t := by
  intro i hi
  have hal := img.ptAligned
  rw [h.pde i (by omega), if_pos hi]
  apply Nat.eq_of_testBit_eq
  intro k
  rw [Nat.testBit_and, Nat.zero_testBit, Bool.and_eq_false_iff]
  by_cases hk : k = 2
  · left
    rw [hk, Nat.testBit_eq_decide_div_mod_eq]
    exact decide_eq_false (by omega)
  · right
    show Nat.testBit (2 ^ 2) k = false
    rw [Nat.testBit_two_pow]
    exact decide_eq_false (Ne.symm hk)

/-- `x` ends in `s'`, by returning or by stopping there. -/
def EndsIn {α : Type} (x : K Flat α) (s s' : State Flat) : Prop :=
  (∃ a, x s = .ok a s') ∨ ∃ e, x s = .error e s'

variable (img) in
/-- Directory slot `i` from `t` to `t'`: as it was, or set for the first time, for address `v`. -/
def PdeStep (t t' : Mem) (v i : Nat) : Prop :=
  pdeAt img t' i = pdeAt img t i ∨
    ¬ Present img t i ∧ i = pdIndex v ∧ ∃ T, pdeAt img t' i = newPde T v

/-- The entry of a fresh table carries the flags of the address it was made for. -/
theorem newPageTable_pde {s s' : State Flat} (hp : s.pmm.Inv) {v i : Nat}
    (hr : newPageTable img v i s = .ok () s') : ∃ T, pdeAt img s'.mem.table i = newPde T v := by
  obtain ⟨T, s₁, hT, hr⟩ := bind_eq_ok.mp hr
  obtain ⟨_, s₂, -, hr⟩ := bind_eq_ok.mp hr
  have hlt : T < 2 ^ 32 := by
    have htot := hp.total
    rcases pmmAllocPage_spec hp with ⟨k, hk, -, -, he⟩ | ⟨-, he⟩ <;> rw [he] at hT <;> cases hT
    simp only [pmmStart, pageSize]
    omega
  have hpde : newPde T v < 2 ^ 32 := by
    unfold newPde
    refine Nat.or_lt_two_pow (Nat.or_lt_two_pow (Nat.or_lt_two_pow hlt ?_) ?_) ?_
    · decide
    · decide
    · split <;> decide
  cases hr
  exact ⟨T, load32_store32 hpde⟩

/-- A call that returns sets at most the directory slot of its page. -/
theorem MapOp.run_pde {s s' : State Flat} (h : PagingInv img s) {op : MapOp}
    (hop : op.virt < 2 ^ 32) (hr : op.run img s = .ok () s') {i : Nat} (hi : i < 1024) :
    PdeStep img s.mem.table s'.mem.table op.virt i := by
  cases op with
  | map v phys flags =>
    have hop : v < 2 ^ 32 := hop
    obtain ⟨r, s₁, hm, hr⟩ := bind_eq_ok.mp hr
    cases hr
    by_cases hp : Present img s.mem.table (pdIndex v)
    · rcases vmmMapPage_spec h phys flags hop with ⟨-, t, he, -, hpde, -⟩ | ⟨habs, -⟩ | ⟨habs, -⟩
      · rw [he] at hm
        cases hm
        exact .inl (hpde i hi)
      · exact absurd hp habs
      · exact absurd hp habs
    rcases newPageTable_spec h hop hp with
      ⟨k, t₁, -, -, -, hnew, hinv₁, hpres, -, hpde₁, -⟩ | ⟨-, hnew⟩
    · obtain ⟨t, he, -, hpde, -⟩ := vmmMapPage_create phys flags hop hp hnew hinv₁ hpres
      obtain ⟨T, hT⟩ := newPageTable_pde h.pmm hnew
      rw [he] at hm
      cases hm
      by_cases hne : i = pdIndex v
      · subst hne
        exact .inr ⟨hp, rfl, T, (hpde _ hi).trans hT⟩
      · exact .inl ((hpde i hi).trans (hpde₁ i hi hne))
    · have hwalk := (virtToPte_create hop (readsPde_flat s v) hp).trans (bind_of_error hnew)
      unfold vmmMapPage at hm
      rw [bind_of_error hwalk] at hm
      cases hm
  | unmap v =>
    have hop : v < 2 ^ 32 := hop
    obtain ⟨t, he, -, hpde, -⟩ := vmmUnmapPage_spec h hop
    have hr : vmmUnmapPage img v s = .ok () s' := hr
    rw [he] at hr
    cases hr
    exact .inl (hpde i hi)

theorem MapOp.run_error {s s' : State Flat} (h : PagingInv img s) {op : MapOp}
    (hop : op.virt < 2 ^ 32) {e : Trap} (hr : op.run img s = .error e s') : s' = s := by
  cases op with
  | map v phys flags =>
    have hop : v < 2 ^ 32 := hop
    have hret : ∀ {r s₁}, vmmMapPage img v phys flags s = .ok r s₁ → s' = s := by
      intro r s₁ he
      rw [show (MapOp.map v phys flags).run img s = _ from bind_of_ok he] at hr
      cases hr
    rcases vmmMapPage_spec h phys flags hop with ⟨-, t, he, -⟩ | ⟨-, k, t, -, -, -, he, -⟩ |
      ⟨-, -, he⟩
    · exact hret he
    · exact hret he
    · rw [show (MapOp.map v phys flags).run img s = _ from bind_of_error he] at hr
      cases hr
      rfl
  | unmap v =>
    obtain ⟨t, he, -⟩ := vmmUnmapPage_spec h hop
    rw [show (MapOp.unmap v).run img s = _ from he] at hr
    cases hr

/-- **One call** stops where it started, or updates the flat map at its page and sets at
most the directory slot of that page. -/
theorem MapOp.run_cases {s s' : State Flat} (h : PagingInv img s) {op : MapOp}
    (hop : op.virt < 2 ^ 32) (hr : EndsIn (op.run img) s s') :
    s' = s ∨ PagingInv img s' ∧ Updates img s.mem.table s'.mem.table op.virt op.entry ∧
      ∀ i, i < 1024 → PdeStep img s.mem.table s'.mem.table op.virt i := by
  obtain ⟨u, hr⟩ | ⟨e, hr⟩ := hr
  · obtain ⟨hinv, hupd⟩ := MapOp.run_spec h hop hr
    exact .inr ⟨hinv, hupd, fun i hi => MapOp.run_pde h hop hr hi⟩
  · exact .inl (MapOp.run_error h hop hr)

/-- What every call keeps, a run of calls keeps, wherever it ends. -/
theorem runMaps_induct {P : State Flat → Prop} : ∀ {ops : List MapOp} {s s' : State Flat},
    (∀ op ∈ ops, ∀ {s s'}, P s → EndsIn (op.run img) s s' → P s') → P s →
    EndsIn (runMaps img ops) s s' → P s'
  | [], s, s', _, h, hr => by
    obtain ⟨_, hr⟩ | ⟨_, hr⟩ := hr <;> cases hr
    exact h
  | op :: ops, s, s', hstep, h, hr => by
    cases he : op.run img s with
    | ok _ s₁ =>
      have h₁ := hstep op List.mem_cons_self h (.inl ⟨_, he⟩)
      have hrest : runMaps img (op :: ops) s = runMaps img ops s₁ := bind_of_ok he
      unfold EndsIn at hr
      rw [hrest] at hr
      exact runMaps_induct (fun o ho => hstep o (List.mem_cons_of_mem _ ho)) h₁ hr
    | error e s₁ =>
      have h₁ := hstep op List.mem_cons_self h (.inr ⟨_, he⟩)
      have hrest : runMaps img (op :: ops) s = .error e s₁ := bind_of_error he
      unfold EndsIn at hr
      rw [hrest] at hr
      obtain ⟨_, hr⟩ | ⟨_, hr⟩ := hr <;> cases hr
      exact h₁

/-- **One call** leaves the low slots as they are, also when it panics. -/
theorem MapOp.run_low {s s' : State Flat} (h : PagingInv img s)
    (hlow : LowSupervisor img s.mem.table)
    {op : MapOp} (hop : op.virt < 2 ^ 32) (hr : EndsIn (op.run img) s s') :
    PagingInv img s' ∧ LowSupervisor img s'.mem.table := by
  obtain rfl | ⟨hinv, -, hpde⟩ := MapOp.run_cases h hop hr
  · exact ⟨h, hlow⟩
  · refine ⟨hinv, hlow.congr fun i hi => ?_⟩
    -- a low slot has its table already
    obtain he | ⟨habs, -⟩ := hpde i (by omega)
    · exact he
    · exact absurd (h.low i hi) habs

/-- **A run of calls** does so too, wherever it ends. -/
theorem runMaps_low {ops : List MapOp} {s s' : State Flat} (h : PagingInv img s)
    (hlow : LowSupervisor img s.mem.table) (hops : ∀ op ∈ ops, op.virt < 2 ^ 32)
    (hr : EndsIn (runMaps img ops) s s') : LowSupervisor img s'.mem.table :=
  (runMaps_induct (P := fun s => PagingInv img s ∧ LowSupervisor img s.mem.table)
    (fun op hop _ _ h hr => MapOp.run_low h.1 h.2 (hops op hop) hr) ⟨h, hlow⟩ hr).2

/-- **The kernel zone is isolated.** After `pmm_init` and `paging_init`, whatever pages
are mapped and unmapped with whatever flags, no address below `USER_ZONE_START`
has user access. -/
theorem kernelZone_isolated {m : Nat} (hm : pmmStart + pageSize ≤ m) (hm' : m < 2 ^ 32)
    {ops : List MapOp} (hops : ∀ op ∈ ops, op.virt < 2 ^ 32) {s₀ s : State Flat}
    (hr : EndsIn (do pmmInit m; pagingInit img; runMaps img ops) s₀ s) {v : Nat}
    (hv : v < userZoneStart) : ¬ UserAccess img s.mem.table v := by
  obtain ⟨s₁, hboot, hinv, hinit, -⟩ := pagingBoot_spec img hm hm' s₀
  obtain ⟨_, s₂, h1, h2⟩ := bind_eq_ok.mp hboot
  unfold EndsIn at hr
  rw [bind_of_ok h1, bind_of_ok h2] at hr
  exact (runMaps_low hinv hinit.lowSupervisor hops hr).no_access hv

/-- A kernel page mapped with `PAGE_USER` is not the user's. -/
theorem kernelZone_isolated_readme :
    ∃ s, (do
        pmmInit pmmMaxBytes
        pagingInit Image.readme
        runMaps Image.readme [.map 0x400000 0x345678 0x7]) (State.boot Flat.blank) = .ok () s ∧
      entryAt Image.readme s.mem.table 0x400000 = 0x345007 ∧
      ¬ UserAccess Image.readme s.mem.table 0x400000 := by
  obtain ⟨s₁, hboot, hinv, -⟩ := pagingBoot_spec Image.readme (m := pmmMaxBytes) (by decide)
    (by decide) (State.boot Flat.blank)
  obtain ⟨_, s₀', h1, h2⟩ := bind_eq_ok.mp hboot
  have hlow : Present Image.readme s₁.mem.table (pdIndex 0x400000) := hinv.low 1 (by decide)
  obtain ⟨t, hmap, hupd⟩ : ∃ t, vmmMapPage Image.readme 0x400000 0x345678 0x7 s₁ =
      .ok 0 (s₁.setTable t) ∧ Updates Image.readme s₁.mem.table t 0x400000 0x345007 := by
    rcases vmmMapPage_spec hinv 0x345678 0x7 (v := 0x400000) (by decide) with
      ⟨-, t, he, -, -, hupd⟩ | ⟨habs, -⟩ | ⟨habs, -⟩
    · exact ⟨t, he, hupd⟩
    · exact absurd hlow habs
    · exact absurd hlow habs
  have hr : (do
      pmmInit pmmMaxBytes
      pagingInit Image.readme
      runMaps Image.readme [.map 0x400000 0x345678 0x7]) (State.boot Flat.blank) =
        .ok () (s₁.setTable t) := by
    rw [bind_of_ok h1, bind_of_ok h2]
    refine (bind_of_ok (t := s₁.setTable t) (a := ()) ?_).trans rfl
    exact bind_of_ok hmap
  have hops : ∀ op ∈ [MapOp.map 0x400000 0x345678 0x7], op.virt < 2 ^ 32 := by decide
  refine ⟨_, hr, hupd 0x400000 (by decide), ?_⟩
  exact kernelZone_isolated (by decide) (by decide) hops (.inl ⟨_, hr⟩) (by decide)

end Kfs
