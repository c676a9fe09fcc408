import Kfs.Isolation

/-!
# Whether the user can use a page mapped for it

The rights of a page are those that both levels of the tables grant. A call of
`vmm_map_page` sets the lower level to the flags it is given; the directory slot
above was set before, and by whom decides the outcome. `virt_to_pte` gives a new
slot `PAGE_USER` from `USER_ZONE_START` on. The user zone itself lies in slots
that `paging_init` has filled for the supervisor, so no page of it is ever the
user's, whatever flags it is mapped with.

The tables are reached at their physical addresses, as `paging_init` leaves them. With paging
on, a call may remap the page that a table lies on.
-/

namespace Kfs

open Kfs.Lib

variable {img : Image}

/-- What a user needs of a page it writes to. -/
def userRights : Nat := pagePresent ||| pageWrite ||| pageUser

variable (img) in
/-- The flags that both levels grant for address `v`. -/
def effectiveFlags (t : Mem) (v : Nat) : Nat := pdeAt img t (pdIndex v) &&& entryAt img t v

variable (img) in
/-- User code can read and write at `v`. -/
def UserWritable (t : Mem) (v : Nat) : Prop := HasFlags (effectiveFlags img t v) userRights

theorem userWritable_iff {t : Mem} {v : Nat} : UserWritable img t v ↔
    HasFlags (pdeAt img t (pdIndex v)) userRights ∧ HasFlags (entryAt img t v) userRights :=
  hasFlags_and

theorem UserWritable.access {t : Mem} {v : Nat} (h : UserWritable img t v) :
    UserAccess img t v := by
  have huser : ∀ {e}, HasFlags e userRights → e &&& pageUser ≠ 0 := by
    intro e he h0
    have hbit : e &&& pageUser = pageUser := (hasFlags_or.mp he).2
    rw [hbit] at h0
    cases h0
  obtain ⟨hpde, hpte⟩ := userWritable_iff.mp h
  exact ⟨huser hpde, huser hpte⟩

/-! ## The two levels -/

theorem mapEntry_hasFlags (phys : Nat) {flags : Nat}
    (hf : HasFlags flags (pageWrite ||| pageUser)) :
    HasFlags (mapEntry phys flags) userRights := by
  have hlow : HasFlags (flags &&& 0xFFF) (pageWrite ||| pageUser) :=
    hasFlags_and.mpr ⟨hf, by decide⟩
  have hflags : HasFlags (mapEntry phys flags) (pageWrite ||| pageUser) :=
    (hlow.or_right _).or_left _
  obtain ⟨hw, hu⟩ := hasFlags_or.mp hflags
  have hp : HasFlags (mapEntry phys flags) pagePresent := HasFlags.or_right (by decide) _
  exact hasFlags_or.mpr ⟨hasFlags_or.mpr ⟨hp, hw⟩, hu⟩

/-- A fresh table for the user zone, or above it, is the user's. -/
theorem newPde_hasFlags (T : Nat) {v : Nat} (hv : userZoneStart ≤ v) :
    HasFlags (newPde T v) userRights := by
  unfold newPde
  rw [if_pos hv]
  have hp : HasFlags (T ||| pagePresent) pagePresent := HasFlags.or_right (by decide) _
  have hw : HasFlags (T ||| pagePresent ||| pageWrite) pageWrite := HasFlags.or_right (by decide) _
  refine hasFlags_or.mpr ⟨hasFlags_or.mpr ⟨?_, ?_⟩, ?_⟩
  · exact (hp.or_left _).or_left _
  · exact hw.or_left _
  · exact HasFlags.or_right (by decide) _

variable (img) in
/-- Every slot filled after `paging_init` is the user's. -/
def HighUser (t : Mem) : Prop :=
  ∀ i, 3 ≤ i → i < 1024 → Present img t i → HasFlags (pdeAt img t i) userRights

theorem InitialTables.highUser {t : Mem} (h : InitialTables img t) : HighUser img t := by
  intro i hi hi' hp
  have := (h.present hi').mp hp
  omega

/-- **One call** keeps that. -/
theorem MapOp.run_high {s s' : State Flat} (h : PagingInv img s) (hhigh : HighUser img s.mem.table)
    {op : MapOp} (hop : op.virt < 2 ^ 32) (hr : EndsIn (op.run img) s s') :
    PagingInv img s' ∧ HighUser img s'.mem.table := by
  obtain rfl | ⟨hinv, -, hpde⟩ := MapOp.run_cases h hop hr
  · exact ⟨h, hhigh⟩
  refine ⟨hinv, fun i hi hi' hp => ?_⟩
  obtain he | ⟨-, rfl, T, he⟩ := hpde i hi'
  · rw [he]
    exact hhigh i hi hi' ((present_congr he).mp hp)
  · rw [he]
    apply newPde_hasFlags
    simp only [userZoneStart, pdIndex] at hi ⊢
    omega

/-- **One call** about another page leaves a mapped page as it is. -/
theorem MapOp.run_other {s s' : State Flat} (h : PagingInv img s) {op : MapOp}
    (hop : op.virt < 2 ^ 32) (hr : EndsIn (op.run img) s s') {v : Nat} (hv : v < 2 ^ 32)
    (hne : op.virt / pageSize ≠ v / pageSize) (hp : Present img s.mem.table (pdIndex v)) :
    PagingInv img s' ∧ pdeAt img s'.mem.table (pdIndex v) = pdeAt img s.mem.table (pdIndex v) ∧
      entryAt img s'.mem.table v = entryAt img s.mem.table v := by
  obtain rfl | ⟨hinv, hupd, hpde⟩ := MapOp.run_cases h hop hr
  · exact ⟨h, rfl, rfl⟩
  refine ⟨hinv, ?_, ?_⟩
  · obtain he | ⟨habs, -⟩ := hpde _ (pdIndex_lt hv)
    · exact he
    · exact absurd hp habs
  · rw [hupd v hv]
    exact if_neg (Ne.symm hne)

/-- **A run of calls** about other pages does so too. -/
theorem runMaps_other {ops : List MapOp} {s s' : State Flat} {v : Nat} (hv : v < 2 ^ 32)
    (hops : ∀ op ∈ ops, op.virt < 2 ^ 32 ∧ op.virt / pageSize ≠ v / pageSize)
    (h : PagingInv img s) (hp : Present img s.mem.table (pdIndex v))
    (hr : EndsIn (runMaps img ops) s s') :
    effectiveFlags img s'.mem.table v = effectiveFlags img s.mem.table v := by
  -- along the run both entries are those of `s`
  let P : State Flat → Prop := fun u => PagingInv img u ∧
    pdeAt img u.mem.table (pdIndex v) = pdeAt img s.mem.table (pdIndex v) ∧
    entryAt img u.mem.table v = entryAt img s.mem.table v
  have hP : P s' := by
    refine runMaps_induct (P := P) (fun op hop u u' hu hrun => ?_) ⟨h, rfl, rfl⟩ hr
    obtain ⟨hinv, hpde, hent⟩ := hu
    obtain ⟨hop, hne⟩ := hops op hop
    obtain ⟨hinv', hpde', hent'⟩ :=
      MapOp.run_other hinv hop hrun hv hne ((present_congr hpde).mpr hp)
    exact ⟨hinv', hpde'.trans hpde, hent'.trans hent⟩
  unfold effectiveFlags
  rw [hP.2.1, hP.2.2]

/-! ## Which mappings are usable -/

theorem slot_user_iff {t : Mem} (hlow : LowSupervisor img t) (hhigh : HighUser img t) {i : Nat}
    (hi : i < 1024) (hp : Present img t i) : HasFlags (pdeAt img t i) userRights ↔ 3 ≤ i := by
  constructor
  · intro hf
    by_contra hlt
    have hbit : pdeAt img t i &&& pageUser = pageUser := (hasFlags_or.mp hf).2
    rw [hlow i (by omega)] at hbit
    cases hbit
  · exact fun h3 => hhigh i h3 hi hp

/-- **User mappings are usable** above the first 12 MB only. After any calls, a page from
`USER_ZONE_START` on is mapped with `PAGE_WRITE` and `PAGE_USER`; then, as long as
no call is about that page, user code can use it if and only if it lies beyond
the identity mapping of `paging_init`. -/
theorem user_pages_usable {m : Nat} (hm : pmmStart + pageSize ≤ m) (hm' : m < 2 ^ 32)
    {ops later : List MapOp} {v phys flags : Nat} (hops : ∀ op ∈ ops, op.virt < 2 ^ 32)
    (hv : userZoneStart ≤ v) (hv' : v < 2 ^ 32) (hf : HasFlags flags (pageWrite ||| pageUser))
    (hlater : ∀ op ∈ later, op.virt < 2 ^ 32 ∧ op.virt / pageSize ≠ v / pageSize)
    {s₀ s₁ s : State Flat} {r : Int}
    (hr : (do pmmInit m; pagingInit img; runMaps img ops; vmmMapPage img v phys flags) s₀ =
      .ok r s₁)
    (hr' : EndsIn (runMaps img later) s₁ s) :
    UserWritable img s.mem.table v ↔ 0xC00000 ≤ v := by
  obtain ⟨b, hboot, hinv, hinit, -⟩ := pagingBoot_spec img hm hm' s₀
  obtain ⟨_, b₀, h1, h2⟩ := bind_eq_ok.mp hboot
  rw [bind_of_ok h1, bind_of_ok h2] at hr
  obtain ⟨_, s₂, hrun, hmap⟩ := bind_eq_ok.mp hr
  -- the calls before, and the call itself
  let P : State Flat → Prop := fun u =>
    PagingInv img u ∧ LowSupervisor img u.mem.table ∧ HighUser img u.mem.table
  have hstep : ∀ op : MapOp, op.virt < 2 ^ 32 → ∀ {u u'}, P u → EndsIn (op.run img) u u' → P u' :=
    fun op hop u u' hu he => ⟨(MapOp.run_low hu.1 hu.2.1 hop he).1,
      (MapOp.run_low hu.1 hu.2.1 hop he).2, (MapOp.run_high hu.1 hu.2.2 hop he).2⟩
  have hP₂ : P s₂ := runMaps_induct (P := P) (fun op hop => hstep op (hops op hop))
    ⟨hinv, hinit.lowSupervisor, hinit.highUser⟩ (.inl ⟨_, hrun⟩)
  have hvirt : (MapOp.map v phys flags).virt < 2 ^ 32 := hv'
  have hcall : (MapOp.map v phys flags).run img s₂ = .ok () s₁ := (bind_of_ok hmap).trans rfl
  obtain ⟨hinv₁, hlow₁, hhigh₁⟩ := hstep _ hvirt hP₂ (.inl ⟨_, hcall⟩)
  obtain ⟨-, hupd⟩ := MapOp.run_spec hP₂.1 hvirt hcall
  have hent : entryAt img s₁.mem.table v = mapEntry phys flags := (hupd v hv').trans (if_pos rfl)
  have hflags := mapEntry_hasFlags phys hf
  have hpres : Present img s₁.mem.table (pdIndex v) := by
    by_contra habs
    unfold entryAt at hent
    rw [if_neg habs] at hent
    rw [← hent] at hflags
    cases hflags
  -- the calls after it
  unfold UserWritable
  rw [runMaps_other hv' hlater hinv₁ hpres hr']
  refine userWritable_iff.trans ?_
  rw [slot_user_iff hlow₁ hhigh₁ (pdIndex_lt hv') hpres, hent, and_iff_left hflags]
  unfold pdIndex
  omega

/-- The first page above the identity mapping, mapped for the user, stays the user's while
its neighbour is unmapped. -/
theorem user_pages_usable_above :
    ∃ s₁ s, (do
        pmmInit pmmMaxBytes
        pagingInit Image.readme
        runMaps Image.readme []
        vmmMapPage Image.readme 0xC00000 0x345678 0x6) (State.boot Flat.blank) = .ok 0 s₁ ∧
      runMaps Image.readme [.unmap 0xC01000] s₁ = .ok () s ∧
      UserWritable Image.readme s.mem.table 0xC00000 := by
  obtain ⟨b, hboot, hinv, -, ht, hb⟩ := pagingBoot_spec Image.readme (m := pmmMaxBytes) (by decide)
    (by decide) (State.boot Flat.blank)
  obtain ⟨_, b₀, h1, h2⟩ := bind_eq_ok.mp hboot
  have hfree : b.pmm.bit 256 = false := by rw [hb 256]; decide
  obtain ⟨s₁, hmap, hinv₁⟩ := vmmMapPage_returns hinv 0x345678 0x6 (v := 0xC00000) (by decide)
    (k := 256) (by rw [ht]; decide) hfree
  obtain ⟨t, hunmap, -⟩ := vmmUnmapPage_spec hinv₁ (v := 0xC01000) (by decide)
  have hr : (do
      pmmInit pmmMaxBytes
      pagingInit Image.readme
      runMaps Image.readme []
      vmmMapPage Image.readme 0xC00000 0x345678 0x6) (State.boot Flat.blank) = .ok 0 s₁ := by
    rw [bind_of_ok h1, bind_of_ok h2]
    exact hmap
  have hr' : runMaps Image.readme [.unmap 0xC01000] s₁ = .ok () (s₁.setTable t) := bind_of_ok hunmap
  refine ⟨s₁, _, hr, hr', ?_⟩
  exact (user_pages_usable (by decide) (by decide) (by decide) (by decide) (by decide)
    (by decide) (by decide) hr (.inl ⟨_, hr'⟩)).mpr (Nat.le_refl _)

/-- The first page of the user zone, mapped with every flag, is not the user's. -/
theorem user_zone_denied :
    ∃ s, (do
        pmmInit pmmMaxBytes
        pagingInit Image.readme
        vmmMapPage Image.readme 0x600000 0x345678 0x7) (State.boot Flat.blank) = .ok 0 s ∧
      entryAt Image.readme s.mem.table 0x600000 = 0x345007 ∧
      ¬ UserWritable Image.readme s.mem.table 0x600000 := by
  obtain ⟨b, hboot, hinv, hinit, -⟩ := pagingBoot_spec Image.readme (m := pmmMaxBytes) (by decide)
    (by decide) (State.boot Flat.blank)
  obtain ⟨_, b₀, h1, h2⟩ := bind_eq_ok.mp hboot
  have hlow : Present Image.readme b.mem.table (pdIndex 0x600000) := hinv.low 1 (by decide)
  obtain ⟨t, hmap, hpde, hupd⟩ : ∃ t, vmmMapPage Image.readme 0x600000 0x345678 0x7 b =
      .ok 0 (b.setTable t) ∧ (∀ i, i < 1024 → pdeAt Image.readme t i =
        pdeAt Image.readme b.mem.table i) ∧
          Updates Image.readme b.mem.table t 0x600000 0x345007 := by
    rcases vmmMapPage_spec hinv 0x345678 0x7 (v := 0x600000) (by decide) with
      ⟨-, t, he, -, hpde, hupd⟩ | ⟨habs, -⟩ | ⟨habs, -⟩
    · exact ⟨t, he, hpde, hupd⟩
    · exact absurd hlow habs
    · exact absurd hlow habs
  refine ⟨b.setTable t, ?_, hupd 0x600000 (by decide), fun hu => ?_⟩
  · rw [bind_of_ok h1, bind_of_ok h2]
    exact hmap
  · refine hu.access.1 ?_
    have hsame : pdeAt Image.readme t 1 = pdeAt Image.readme b.mem.table 1 := hpde 1 (by decide)
    exact (congrArg (· &&& pageUser) hsame).trans (hinit.lowSupervisor 1 (by decide))

end Kfs
