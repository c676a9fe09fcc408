import Kfs.ShellInv
import Kfs.KHeapSize

/-!
# Runs of the shell's memory commands

A run starts after `memory_init` on zeroed regions and executes commands with any
arguments. `write` and `read` look for a magic and trust it, wherever it comes
from. As long as no command brings one in (`Clean`), they touch live memory only.
-/

namespace Kfs

open Kfs.Lib

/-- The kernel's state, and the pointers handed out and not freed since, with their sizes. -/
structure ShellSys where
  st : State Flat
  live : Finset (Nat × Nat)

/-- A command and its arguments. -/
inductive ShellOp where
  | kmalloc (n : Nat)
  | kfree (a : Nat)
  | ktest (n v : Nat)
  | vmalloc (n : Nat)
  | vfree (a : Nat)
  | vtest (n v : Nat)
  | write (a v : Nat)

/-- The pointer `p`, unless null, is handed out with `z` bytes. -/
def handOut (live : Finset (Nat × Nat)) (p z : Nat) : Finset (Nat × Nat) :=
  if p = 0 then live else insert (p, z) live

def takeBack (live : Finset (Nat × Nat)) (p : Nat) : Finset (Nat × Nat) := live.filter (·.1 ≠ p)

/-- A test hands a pointer out and frees it. -/
def afterTest (live : Finset (Nat × Nat)) : Option AllocTest → Finset (Nat × Nat)
  | none => live
  | some t => takeBack live t.ptr

variable (img : Image)

/-- A command that returns, run with 32-bit arguments. -/
def ShellStep (x : ShellSys) : ShellOp → ShellSys → Prop
  | .kmalloc n, y => n < 2 ^ 32 ∧ ∃ p, cmdKmalloc n x.st = .ok p y.st ∧
      y.live = handOut x.live p (load32 y.st.mem.data (p - 16))
  | .kfree a, y => a < 2 ^ 32 ∧ cmdKfree a x.st = .ok () y.st ∧ y.live = takeBack x.live a
  | .ktest n v, y => n < 2 ^ 32 ∧ v < 2 ^ 32 ∧ ∃ t, cmdKtest n v x.st = .ok t y.st ∧
      y.live = afterTest x.live t
  | .vmalloc n, y => n < 2 ^ 32 ∧ ∃ p, cmdVmalloc img n x.st = .ok p y.st ∧
      y.live = handOut x.live p (load32 y.st.mem.data (p - 20))
  | .vfree a, y => a < 2 ^ 32 ∧ cmdVfree a x.st = .ok () y.st ∧ y.live = takeBack x.live a
  | .vtest n v, y => n < 2 ^ 32 ∧ v < 2 ^ 32 ∧ ∃ t, cmdVtest img n v x.st = .ok t y.st ∧
      y.live = afterTest x.live t
  | .write a v, y => a < 2 ^ 32 ∧ v < 2 ^ 32 ∧ (∃ r, cmdWrite a v x.st = .ok r y.st) ∧
      y.live = x.live

/-- The state after `memory_init` on zeroed regions. -/
def ShellStart (x : ShellSys) : Prop :=
  ∃ m, memoryInit img pmmMaxBytes (State.boot m) = .ok () x.st ∧ x.live = ∅ ∧
    ∀ a, kheapStart ≤ a → a ≤ kvmemEnd → m.data a = 0

/-- The word at `a` lies inside a live payload. -/
def LiveWord (x : ShellSys) (a : Nat) : Prop := ∃ q ∈ x.live, q.1 ≤ a ∧ a + 4 ≤ q.1 + q.2

/-- **What `write` stores and `read` loads** is live memory. -/
def TouchesLive (x : ShellSys) : Prop :=
  ∀ a, a < 2 ^ 32 → (∀ v s', cmdWrite a v x.st = .ok true s' → LiveWord x a) ∧
    ∀ w s', cmdRead a x.st = .ok (some w) s' → LiveWord x a

/-- What a test writes is not the magic, and its size does not round to 0. -/
def PlainTest (n v : Nat) : Prop := n ≤ 0xFFFFFFF8 ∧ v ≠ magicAllocated

/-- A free does not meet a magic outside the two regions. -/
def InRegions (s : State Flat) (a : Nat) : Prop :=
  a = 0 ∨ Covered (sub32 a 8) ∨ load32 s.mem.data (sub32 a 8) ≠ magicAllocated

/-- **The condition on a command.** -/
def Clean (x : ShellSys) : ShellOp → Prop
  | .kmalloc _ => True
  | .kfree a => InRegions x.st a
  | .ktest n v => PlainTest n v
  | .vmalloc n => NoWrap x.st n
  | .vfree a => InRegions x.st a
  | .vtest n v => PlainTest n v ∧ NoWrap x.st n
  | .write _ _ => True

variable {img}

/-! ## The start -/

theorem ShellStart.ok {x : ShellSys} (h : ShellStart img x) :
    ShellOk x.st x.live [wholeHeap] [] := by
  obtain ⟨s, live⟩ := x
  obtain ⟨m, hr, rfl, hzero⟩ := h
  obtain ⟨s', hr', hboot⟩ := memoryInit_spec img m
  rw [hr'] at hr
  injection hr with _ hs
  subst hs
  obtain ⟨s₀, hinit, hdata₀⟩ := memoryInit_kheapInit hr'
  have hdata : s'.mem.data = freshHeap m.data := by
    rw [kheapInit_data hinit, hdata₀]
  -- zeros, and the three inert words of the first header
  have hword : ∀ u, Covered u → load32 m.data u = 0 := by
    intro u hu
    have hz : ∀ i, i < 4 → m.data (u + i) = 0 := fun i hi =>
      hzero _ (by have := hu.1; omega) (by have := hu.2; omega)
    unfold load32
    rw [show m.data u = 0 from hz 0 (by omega), hz 1 (by omega), hz 2 (by omega), hz 3 (by omega)]
    rfl
  have hstores : InertStores magicAllocated m.data s'.mem.data := by
    rw [hdata]
    exact .store (.store (.store .refl (by decide) (by decide)) (by decide) inert_one) (by decide)
      inert_zero
  have hcur : s'.vmem.vmemCurrent = 0x300000 := by rw [hboot.vmem]; rfl
  refine ⟨hboot.heap.rep, hboot.vmemOk.list, ?_, by simp, fun q => ?_, fun u h1 h2 hu => ?_,
    fun x hx => ?_, fun u hu hm => ?_⟩
  · show s'.vmem.vmemCurrent ≤ kvmemEnd
    rw [hcur]
    decide
  · show q ∈ (∅ : Finset _) ↔ _
    simp [kgrant, grantOf, wholeHeap]
  · refine hstores.inert (by omega) id ?_
    rw [hword u ⟨h1, by simp only [kheapEnd, kvmemEnd] at *; omega⟩]
    exact inert_zero
  · have hlo := Spare.lo hboot.vmemOk.list hx
    rcases hx with ⟨v, hv, -⟩ | ⟨-, hhi⟩
    · cases hv
    show s'.mem.data x = 0
    rw [hdata]
    simp only [kvmemStart] at hlo
    unfold freshHeap
    rw [store32_other (by simp only [kheapStart]; omega),
      store32_other (by simp only [kheapStart]; omega),
      store32_other (by simp only [kheapStart]; omega)]
    exact hzero x (by simp only [kheapStart]; omega) hhi
  · rcases hstores.quiet spread_allocated u hm with hold | hold
    · rw [hword u hu] at hold
      cases hold
    · exact hold.elim

/-! ## Steps -/

section Step

variable {s s' : State Flat} {live : Finset (Nat × Nat)} {bs : List Blk} {vs : List VBlk}

/-- **A magic in the two regions** is that of a block in use. -/
theorem ShellOk.of_magic (h : ShellOk s live bs vs) {a : Nat} (ha : a < 2 ^ 32) (ha0 : a ≠ 0)
    (hc : InRegions s a) (hm : load32 s.mem.data (sub32 a 8) = magicAllocated) :
    (∃ b ∈ bs, b.free = false ∧ a = b.addr + 16) ∨ ∃ b ∈ vs, b.free = false ∧ a = b.addr + 20 := by
  have hcov : Covered (sub32 a 8) := (hc.resolve_left ha0).resolve_right fun h => h hm
  have hsub : sub32 a 8 + 8 = a := by
    have := hcov.1
    have := hcov.2
    simp only [sub32, kheapStart, kvmemEnd] at *
    omega
  obtain ⟨z, hz⟩ := h.marks _ hcov hm
  rw [hsub] at hz
  rcases (h.granted _).mp hz with hgr | hgr
  · obtain ⟨b, hb, hf, hq⟩ := mem_grantOf.mp hgr
    injection hq with hq _
    exact .inl ⟨b, hb, hf, hq⟩
  · obtain ⟨b, hb, hf, hq⟩ := mem_grantOf.mp hgr
    injection hq with hq _
    exact .inr ⟨b, hb, hf, hq⟩

theorem ShellOk.not_null (h : ShellOk s live bs vs) : takeBack live 0 = live := by
  refine Finset.filter_true_of_mem fun q hq => ?_
  rcases (h.granted q).mp hq with hq | hq
  · have := h.kgrant_bounds hq
    omega
  · have := h.vgrant_bounds hq
    omega

theorem ShellOk.kfree (h : ShellOk s live bs vs) {a : Nat} (ha : a < 2 ^ 32) (hc : InRegions s a)
    (hr : kfree a s = .ok () s') : ∃ bs' vs', ShellOk s' (takeBack live a) bs' vs' := by
  by_cases ha0 : a = 0
  · subst ha0
    cases hr
    rw [h.not_null]
    exact ⟨bs, vs, h⟩
  by_cases hm : load32 s.mem.data (sub32 a 8) = magicAllocated
  swap
  · obtain ⟨fmt, args, herr⟩ := kfree_rejects ha0 hm
    rw [herr] at hr
    cases hr
  rcases h.of_magic ha ha0 hc hm with ⟨b, hb, hf, rfl⟩ | ⟨b, hb, hf, rfl⟩
  · obtain ⟨t, bs', hr', hok⟩ := h.kfree_heap hb hf
    rw [hr'] at hr
    cases hr
    exact ⟨bs', vs, hok⟩
  · obtain ⟨t, bs', vs', hr', hok⟩ := h.kfree_vmem hb hf
    rw [hr'] at hr
    cases hr
    exact ⟨bs', vs', hok⟩

theorem vfree_rejects {a : Nat} (ha : a ≠ 0)
    (hm : load32 s.mem.data (sub32 a 8) ≠ vmemMagicAllocated) :
    ∃ fmt args, vfree a s = .error (.panic fmt args) s := by
  have hblk : (sub32 a vmemHeader + 12) % 2 ^ 32 = sub32 a 8 := by
    simp only [sub32, vmemHeader]
    omega
  have hld : (ld (sub32 a vmemHeader + 12) : K Flat Nat) s =
      .ok (load32 s.mem.data (sub32 a 8)) s := by
    unfold ld
    rw [hblk]
    rfl
  unfold vfree
  rw [if_neg ha]
  dsimp only
  rw [bind_of_ok hld]
  by_cases hfreed : load32 s.mem.data (sub32 a 8) = vmemMagicFreed
  · rw [if_pos hfreed]
    exact ⟨_, _, rfl⟩
  · rw [if_neg hfreed, if_pos hm]
    exact ⟨_, _, rfl⟩

theorem ShellOk.vfree (h : ShellOk s live bs vs) {a : Nat} (ha : a < 2 ^ 32) (hc : InRegions s a)
    (hr : vfree a s = .ok () s') : ∃ bs' vs', ShellOk s' (takeBack live a) bs' vs' := by
  by_cases ha0 : a = 0
  · subst ha0
    cases hr
    rw [h.not_null]
    exact ⟨bs, vs, h⟩
  by_cases hm : load32 s.mem.data (sub32 a 8) = vmemMagicAllocated
  swap
  · obtain ⟨fmt, args, herr⟩ := vfree_rejects ha0 hm
    rw [herr] at hr
    cases hr
  rcases h.of_magic ha ha0 hc hm with ⟨b, hb, hf, rfl⟩ | ⟨b, hb, hf, rfl⟩
  · obtain ⟨t, bs', vs', hr', hok⟩ := h.vfree_heap hb hf
    rw [hr'] at hr
    cases hr
    exact ⟨bs', vs', hok⟩
  · obtain ⟨t, vs', hr', hok⟩ := h.vfree_vmem hb hf
    rw [hr'] at hr
    cases hr
    exact ⟨bs, vs', hok⟩

/-- **A size that `ksize` or `vsize` gives** is that of a live pointer. -/
theorem ShellOk.sized (h : ShellOk s live bs vs) {a z : Nat} (hz : Sized s a z) :
    (a, z) ∈ live := by
  have hin := h.inside
  have hbase := h.heap.base
  obtain ⟨hm, hreg⟩ := hz
  simp only [kheapStart, kheapEnd, kvmemStart, kvmemEnd] at hreg hin hbase
  have hcov : Covered (a - 8) := by
    unfold Covered
    simp only [kheapStart, kvmemEnd]
    rcases hreg with ⟨h1, h2, -⟩ | ⟨h1, h2, -⟩
    · omega
    · omega
  obtain ⟨w, hw⟩ := h.marks _ hcov hm
  rw [show a - 8 + 8 = a by omega] at hw
  suffices w = z by rwa [← this]
  rcases (h.granted _).mp hw with hgr | hgr
  · have hbnd := h.kgrant_bounds hgr
    obtain ⟨b, hb, -, hq⟩ := mem_grantOf.mp hgr
    injection hq with hq hwz
    have hsize : load32 s.mem.data b.addr = b.size := (h.heap.list.holds b hb).1
    rcases hreg with ⟨h1, h2, hz⟩ | ⟨h1, -⟩
    · rw [hz, hwz, hq, Nat.add_sub_cancel, hsize]
    · simp only at hbnd
      omega
  · have hbnd := h.vgrant_bounds hgr
    obtain ⟨b, hb, -, hq⟩ := mem_grantOf.mp hgr
    injection hq with hq hwz
    have hsize : load32 s.mem.data b.addr = b.size := (h.vmem.list.holds b hb).1
    rcases hreg with ⟨-, h2, -⟩ | ⟨h1, h2, hz⟩
    · simp only at hbnd
      omega
    · rw [hz, hwz, hq, Nat.add_sub_cancel, hsize]

/-- **A test** of either allocator keeps the invariant: its allocation hands out a block
for a word, its size function changes nothing, and its free takes the block back. -/
theorem ShellOk.test {alloc size : Nat → K Flat Nat} {free : Nat → K Flat Unit} {n v : Nat}
    {t : Option AllocTest} (hr : allocTest alloc size free n v s = .ok t s')
    (hv : v % 2 ^ 32 ≠ magicAllocated) (hskip : ∀ {s₁}, alloc n s = .ok 0 s₁ → s₁ = s)
    (h : ShellOk s live bs vs)
    (halloc : ∀ {p s₁}, alloc n s = .ok p s₁ → p ≠ 0 → p < 2 ^ 32 ∧
      ∃ z bs₁ vs₁, 4 ≤ z ∧ ShellOk s₁ (insert (p, z) live) bs₁ vs₁)
    (hsize : ∀ {p z s₁ s₂}, alloc n s = .ok p s₁ → p ≠ 0 →
      size p (s₁.setData (store32 s₁.mem.data p v)) = .ok z s₂ →
      s₂ = s₁.setData (store32 s₁.mem.data p v))
    (hfree : ∀ {p s₁ s₂ L bs₁ vs₁}, ShellOk s₁ L bs₁ vs₁ → (∃ z, (p, z) ∈ L) →
      free p s₁ = .ok () s₂ → ∃ bs₂ vs₂, ShellOk s₂ (takeBack L p) bs₂ vs₂) :
    ∃ bs' vs', ShellOk s' (afterTest live t) bs' vs' := by
  unfold allocTest at hr
  obtain ⟨p, s₁, ha, hrest⟩ := bind_eq_ok.mp hr
  split at hrest
  · rename_i hp0
    cases hrest
    rw [hp0] at ha
    rw [hskip ha]
    exact ⟨bs, vs, h⟩
  rename_i hp0
  obtain ⟨hp32, z, bs₁, vs₁, hz, hok⟩ := halloc ha hp0
  have hstored := hok.store (v := v) (Finset.mem_insert_self _ _) hz hv
  rw [bind_of_ok (st_flat hp32 _ _), bind_of_ok (ld_flat hp32 _)] at hrest
  obtain ⟨got, s₂, hgot, hrest⟩ := bind_eq_ok.mp hrest
  rw [hsize ha hp0 hgot] at hrest
  obtain ⟨_, s₃, hf, hrest⟩ := bind_eq_ok.mp hrest
  cases hrest
  obtain ⟨bs₂, vs₂, hok₂⟩ := hfree hstored ⟨z, Finset.mem_insert_self _ _⟩ hf
  refine ⟨bs₂, vs₂, ?_⟩
  have hback : takeBack (insert (p, z) live) p = takeBack live p := by
    unfold takeBack
    rw [Finset.filter_insert, if_neg (by simp)]
  rw [hback] at hok₂
  exact hok₂

theorem ShellOk.inRegions (h : ShellOk s live bs vs) {p z : Nat} (hp : (p, z) ∈ live) :
    p < 2 ^ 32 ∧ InRegions s p := by
  have hbnd : 0x200010 ≤ p ∧ p ≤ 0x600000 := by
    rcases (h.granted _).mp hp with hgr | hgr
    · have := h.kgrant_bounds hgr
      simp only at this
      omega
    · have := h.vgrant_bounds hgr
      simp only at this
      omega
  refine ⟨by omega, .inr (.inl ?_)⟩
  unfold Covered
  rw [sub32_eq (by omega) (by omega)]
  simp only [kheapStart, kvmemEnd]
  omega

theorem ShellOk.ktest (h : ShellOk s live bs vs) {n v : Nat}
    {t : Option AllocTest} (hv : v < 2 ^ 32) (hc : PlainTest n v) (hr : cmdKtest n v s = .ok t s') :
    ∃ bs' vs', ShellOk s' (afterTest live t) bs' vs' := by
  have hnull : ∀ {p s₁}, Kfs.kmalloc n s = .ok p s₁ → p ≠ 0 → n ≠ 0 := by
    rintro p s₁ ha hp rfl
    cases ha
    exact hp rfl
  refine ShellOk.test hr (by rw [Nat.mod_eq_of_lt hv]; exact hc.2) (fun {s₁} ha => ?_) h
    (fun ha hp => ?_) (fun {p z s₁ s₂} ha hp hsize => ?_) fun hok ⟨z, hz⟩ hf => ?_
  · by_cases hn : n = 0
    · subst hn
      cases ha
      rfl
    · obtain ⟨-, hlo, -⟩ := h.kmalloc hn ha
      simp at hlo
  · obtain ⟨⟨bs', hok⟩, -, hlt, hsize⟩ := h.kmalloc (hnull ha hp) ha
    have := hsize hc.1
    exact ⟨hlt, _, bs', vs, by omega, hok⟩
  · obtain ⟨-, hlo, hlt, -⟩ := h.kmalloc (hnull ha hp) ha
    exact (ksize_ok hsize (by omega) hlt).1
  · obtain ⟨hlt, hin⟩ := hok.inRegions hz
    exact hok.kfree hlt hin hf

theorem ShellOk.vtest (h : ShellOk s live bs vs) {n v : Nat}
    {t : Option AllocTest} (hv : v < 2 ^ 32)
    (hc : PlainTest n v) (hwrap : NoWrap s n) (hr : cmdVtest img n v s = .ok t s') :
    ∃ bs' vs', ShellOk s' (afterTest live t) bs' vs' := by
  have hnull : ∀ {p s₁}, Kfs.vmalloc img n s = .ok p s₁ → p ≠ 0 → n ≠ 0 := by
    rintro p s₁ ha hp rfl
    cases ha
    exact hp rfl
  refine ShellOk.test hr (by rw [Nat.mod_eq_of_lt hv]; exact hc.2) (fun {s₁} ha => ?_) h
    (fun ha hp => ?_) (fun {p z s₁ s₂} ha hp hsize => ?_) fun hok ⟨z, hz⟩ hf => ?_
  · by_cases hn : n = 0
    · subst hn
      cases ha
      rfl
    · obtain ⟨-, hlo, -⟩ := h.vmalloc hn hwrap ha
      simp at hlo
  · obtain ⟨⟨vs', hok⟩, -, hlt, hsize⟩ := h.vmalloc (hnull ha hp) hwrap ha
    have := hsize hc.1
    exact ⟨hlt, _, bs, vs', by omega, hok⟩
  · obtain ⟨-, hlo, hlt, -⟩ := h.vmalloc (hnull ha hp) hwrap ha
    exact (vsize_ok hsize (by omega) hlt).1
  · obtain ⟨hlt, hin⟩ := hok.inRegions hz
    exact hok.vfree hlt hin hf

end Step

/-- **Every clean command** keeps the invariant. -/
theorem ShellStep.ok {x y : ShellSys} {op : ShellOp} (h : ∃ bs vs, ShellOk x.st x.live bs vs)
    (hc : Clean x op) (hs : ShellStep img x op y) : ∃ bs vs, ShellOk y.st y.live bs vs := by
  obtain ⟨bs, vs, h⟩ := h
  obtain ⟨s', live'⟩ := y
  cases op with
  | kmalloc n =>
    obtain ⟨-, p, hr, hlive⟩ := hs
    have hlive : live' = handOut x.live p (load32 s'.mem.data (p - 16)) := hlive
    subst hlive
    by_cases hn : n = 0
    · subst hn
      cases hr
      exact ⟨bs, vs, h⟩
    · obtain ⟨⟨bs', hok⟩, hlo, -⟩ := h.kmalloc hn hr
      refine ⟨bs', vs, ?_⟩
      rw [handOut, if_neg (by omega)]
      exact hok
  | kfree a =>
    obtain ⟨ha, hr, rfl⟩ := hs
    exact h.kfree ha hc hr
  | ktest n v =>
    obtain ⟨-, hv, t, hr, rfl⟩ := hs
    exact h.ktest hv hc hr
  | vmalloc n =>
    obtain ⟨-, p, hr, hlive⟩ := hs
    have hlive : live' = handOut x.live p (load32 s'.mem.data (p - 20)) := hlive
    subst hlive
    by_cases hn : n = 0
    · subst hn
      cases hr
      exact ⟨bs, vs, h⟩
    · obtain ⟨⟨vs', hok⟩, hlo, -⟩ := h.vmalloc hn hc hr
      refine ⟨bs, vs', ?_⟩
      rw [handOut, if_neg (by omega)]
      exact hok
  | vfree a =>
    obtain ⟨ha, hr, rfl⟩ := hs
    exact h.vfree ha hc hr
  | vtest n v =>
    obtain ⟨-, hv, t, hr, rfl⟩ := hs
    exact h.vtest hv hc.1 hc.2 hr
  | write a v =>
    obtain ⟨ha, -, ⟨r, hr⟩, rfl⟩ := hs
    cases r with
    | false =>
      rw [show s' = x.st from cmdWrite_skip hr ha]
      exact ⟨bs, vs, h⟩
    | true =>
      obtain ⟨hv, hst, z, hz, hsized⟩ := cmdWrite_ok hr ha
      rw [show s' = _ from hst]
      refine ⟨bs, vs, h.store (h.sized hsized) hz ?_⟩
      simp only [magicAllocated]
      omega

/-- In a state with the invariant, `write` and `read` touch live memory only. -/
theorem ShellOk.touches {x : ShellSys} (h : ∃ bs vs, ShellOk x.st x.live bs vs) :
    TouchesLive x := by
  obtain ⟨bs, vs, h⟩ := h
  intro a ha
  constructor
  · intro v s' hr
    obtain ⟨-, -, z, hz, hsized⟩ := cmdWrite_ok hr ha
    exact ⟨(a, z), h.sized hsized, Nat.le_refl _, by simp only; omega⟩
  · intro w s' hr
    obtain ⟨z, hz, hsized⟩ := cmdRead_ok hr ha
    exact ⟨(a, z), h.sized hsized, Nat.le_refl _, by simp only; omega⟩

/-- **When `write` and `read` touch live memory only**: in every state of every run of
clean commands on zeroed regions. -/
theorem shell_touches_live {x : ShellSys} (h : ShellStart img x) {tr : List (ShellOp × ShellSys)}
    (ht : Trace (ShellStep img) x tr) (hc : Meets Clean x tr) :
    TouchesLive x ∧ ∀ y ∈ tr, TouchesLive y.2 := by
  have hx : ∃ bs vs, ShellOk x.st x.live bs vs := ⟨_, _, h.ok⟩
  refine ⟨ShellOk.touches hx, fun y hy => ShellOk.touches ?_⟩
  exact Trace.inv_all (I := fun x : ShellSys => ∃ bs vs, ShellOk x.st x.live bs vs)
    (fun _ _ _ hI hc hs => hs.ok hI hc) ht hc hx y hy

/-! ## What `write` accepts -/

theorem cmdWrite_any {s : State Flat} {bs : List Blk} (h : HeapRep s bs) {a v : Nat}
    (h1 : kheapStart + 16 ≤ a) (h2 : a < kheapEnd) (h8 : a % 8 = 0)
    (hm : load32 s.mem.data (a - 8) = magicAllocated) (hz : 4 ≤ load32 s.mem.data (a - 16))
    (hv : v ≤ 0x7FFFFFFF) : cmdWrite a v s = .ok true (s.setData (store32 s.mem.data a v)) := by
  have hk := ksize_any h h1 (by omega) h8 hm
  have hin : (decide (a ≥ kheapStart) && decide (a < kheapEnd)) = true := by
    rw [Bool.and_eq_true, decide_eq_true_eq, decide_eq_true_eq]
    omega
  have hsize : allocSize a s = .ok (.kmalloc, load32 s.mem.data (a - 16)) s := by
    unfold allocSize
    rw [if_pos hin, bind_of_ok hk]
    rfl
  simp only [kheapStart, kheapEnd] at h1 h2
  unfold cmdWrite
  rw [if_neg (by omega)]
  dsimp only
  rw [if_neg (by omega), bind_of_ok hsize]
  dsimp only
  rw [if_pos (by omega), if_neg (by omega), bind_of_ok (st_flat (by omega) _ _)]
  rfl

theorem kmalloc_boot {n : Nat} (hn : n ≠ 0) (hfit : round8 n ≤ 0x1000) :
    ∃ s s' : State Flat, ShellStart Image.readme ⟨s, ∅⟩ ∧ kmalloc n s = .ok 0x200010 s' ∧
      HeapRep s' [⟨0x200000, round8 n, false⟩,
        ⟨0x200010 + round8 n, 0xFFFF0 - round8 n - 16, true⟩] := by
  obtain ⟨s, hr, hboot⟩ := memoryInit_spec Image.readme Flat.blank
  obtain ⟨s', hk, hrep, -⟩ := kmalloc_rep (n := n)
    (show HeapRep s ([] ++ wholeHeap :: []) from hboot.heap.rep) hn (by simp)
    ⟨rfl, by simp only [wholeHeap, kheapSize, kheapEnd, kheapStart, headerSize]; omega⟩
  refine ⟨s, s', ⟨_, hr, rfl, fun _ _ _ => rfl⟩, hk, ?_⟩
  unfold Blk.serve at hrep
  rw [if_pos (by simp only [wholeHeap, kheapSize, kheapEnd, kheapStart, headerSize]; omega)] at hrep
  exact hrep

/-- A word written at a live pointer. -/
theorem shell_touches_live_write : ∃ (x : ShellSys) (tr : List (ShellOp × ShellSys)),
    ShellStart Image.readme x ∧ Trace (ShellStep Image.readme) x tr ∧
    tr.map Prod.fst = [.kmalloc 16, .write 0x200010 1] ∧ ∀ y ∈ tr, TouchesLive y.2 := by
  obtain ⟨s, s', hstart, hk, hrep⟩ := kmalloc_boot (n := 16) (by decide) (by decide)
  have hhold := hrep.list.holds ⟨0x200000, round8 16, false⟩ (by simp)
  have hsize : load32 s'.mem.data 0x200000 = 16 := hhold.1
  have hw := cmdWrite_any hrep (a := 0x200010) (v := 1) (by decide) (by decide) (by decide)
    (hhold.2.2 rfl) (by rw [show 0x200010 - 16 = 0x200000 from rfl, hsize]; decide) (by decide)
  have hrun : Trace (ShellStep Image.readme) ⟨s, ∅⟩ [(.kmalloc 16, ⟨s', handOut ∅ 0x200010
      (load32 s'.mem.data (0x200010 - 16))⟩), (.write 0x200010 1, ⟨_, _⟩)] :=
    ⟨⟨by decide, _, hk, rfl⟩, ⟨by decide, by decide, ⟨_, hw⟩, rfl⟩, trivial⟩
  exact ⟨_, _, hstart, hrun, rfl, (shell_touches_live hstart hrun ⟨trivial, trivial, trivial⟩).2⟩

/-- A magic planted by `ktest` makes `write` store in free memory. -/
theorem write_trusts_planted : ∃ x y : ShellSys, ShellStart Image.readme x ∧
    ShellStep Image.readme x (.ktest 8 0xDEADBEEF) y ∧ y.live = ∅ ∧
    (∃ s', cmdWrite 0x200018 1 y.st = .ok true s') ∧ ¬ TouchesLive y := by
  obtain ⟨s, s₁, hstart, hk, hrep⟩ := kmalloc_boot (n := 8) (by decide) (by decide)
  obtain ⟨m, hm⟩ : ∃ m, m = store32 s₁.mem.data 0x200010 0xDEADBEEF := ⟨_, rfl⟩
  have hrep₂ : HeapRep (s₁.setData m) [⟨0x200000, 8, false⟩, ⟨0x200018, 0xFFFD8, true⟩] := by
    rw [hm]
    exact hrep.store (b := ⟨0x200000, round8 8, false⟩) (by simp) (by decide) (by decide)
  have hhold := hrep₂.list.holds ⟨0x200000, 8, false⟩ (by simp)
  have hsize := ksize_any hrep₂ (a := 0x200010) (by decide) (by decide) (by decide) (hhold.2.2 rfl)
  obtain ⟨s₃, hf, hrep₃, -, -, hsame, -, hfreed⟩ := kfree_rep
    (show HeapRep (s₁.setData m) ([] ++ ⟨0x200000, 8, false⟩ :: [⟨0x200018, 0xFFFD8, true⟩])
      from hrep₂)
    rfl
  have hf : kfree 0x200010 (s₁.setData m) = .ok () s₃ := hf
  have hfreed : load32 s₃.mem.data (0x200018 - 16) = magicFreed := hfreed
  have hplanted : load32 s₃.mem.data (0x200018 - 8) = magicAllocated := by
    have hkept : load32 s₃.mem.data 0x200010 = load32 m 0x200010 := hsame.load32 (by
      rintro x h1 h2 ⟨c, hc, h3, h4⟩
      simp only [List.nil_append, List.mem_cons, List.not_mem_nil, or_false] at hc
      rcases hc with rfl | rfl
      · simp only at h3 h4
        omega
      · simp only at h3 h4
        omega)
    rw [show 0x200018 - 8 = 0x200010 from rfl, hkept, hm]
    exact load32_store32 (by decide)
  have htest : cmdKtest 8 0xDEADBEEF s = .ok (some ⟨0x200010, load32 m 0x200010,
      load32 m (0x200010 - 16)⟩) s₃ := by
    unfold cmdKtest allocTest
    rw [bind_of_ok hk, if_neg (by decide), bind_of_ok (st_flat (by decide) _ _), ← hm,
      bind_of_ok (ld_flat (by decide) _), bind_of_ok hsize, bind_of_ok hf]
    rfl
  have hw := cmdWrite_any hrep₃ (a := 0x200018) (v := 1) (by decide)
    (by decide) (by decide) hplanted
    (by rw [hfreed]; decide) (by decide)
  refine ⟨⟨s, ∅⟩, ⟨s₃, ∅⟩, hstart, ⟨by decide, by decide, _, htest, rfl⟩,
    rfl, ⟨_, hw⟩, fun hall => ?_⟩
  obtain ⟨q, hq, -⟩ := (hall 0x200018 (by decide)).1 1 _ hw
  cases hq

end Kfs
