import Kfs.MmuRun

/-!
# Commands during start-up

`kernel_main` lets interrupts in before it calls `memory_init`, and the keyboard
handler runs whole shell commands. `BootStep` takes the four steps of `memory_init`
in their order, with `vmalloc` commands between them.

Until `kheap_init` has run, the next free frame is not the one at the address of
the next page of the region, so the static tables no longer map every page to
itself. `Mapped` says which frame each page gets. What the code sees at an address
is then a matter of the PG bit: `Mmu.place` is where an access ends up, `Mmu.seen`
the memory the code sees.
-/

namespace Kfs

open Kfs.Lib

variable {img : Image}

/-! ## The steps of `memory_init` and the commands between them -/

/-- The step of `memory_init` that was last. -/
inductive BootPhase where
  | start
  | frames
  | tables
  | paging
  | done
  deriving DecidableEq

def BootPhase.next : BootPhase → BootPhase
  | .start => .frames
  | .frames => .tables
  | .tables => .paging
  | .paging => .done
  | .done => .done

def bootInit (img : Image) : BootPhase → K Mmu Unit
  | .start => pmmInit pmmMaxBytes
  | .frames => pagingInit img
  | .tables => pagingEnable
  | .paging => kheapInit img
  | .done => return

/-- Without commands in between the steps are `memory_init`. -/
theorem memoryInit_eq_bootInit : (memoryInit img pmmMaxBytes : K Mmu Unit) = (do
    bootInit img .start
    bootInit img .frames
    bootInit img .tables
    bootInit img .paging) := rfl

/-- A block that a command got: the pointer, the size it asked for, and when. -/
structure BootBlock where
  ptr : Nat
  size : Nat
  made : BootPhase

structure BootSys where
  st : State Mmu
  phase : BootPhase
  live : List BootBlock

inductive BootOp where
  | init
  | vmalloc (n : Nat)

/-- A step of `memory_init`, or a command between two of them, that returns. -/
def BootStep (img : Image) (x : BootSys) : BootOp → BootSys → Prop
  | .init, y => x.phase ≠ .done ∧ bootInit img x.phase x.st = .ok () y.st ∧
      y.phase = x.phase.next ∧ y.live = x.live
  | .vmalloc n, y => (x.phase = .frames ∨ x.phase = .tables ∨ x.phase = .paging) ∧ n < 2 ^ 32 ∧
      y.phase = x.phase ∧ ∃ p, vmalloc img n x.st = .ok p y.st ∧
        y.live = if p = 0 then x.live else ⟨p, n, x.phase⟩ :: x.live

/-- `memory_init` is entered with paging off. -/
def BootStart (x : BootSys) : Prop :=
  ∃ m : Mmu, m.pagingOn = false ∧ x = ⟨State.boot m, .start, []⟩

/-- A page of the kernel heap, or one under the header or the payload of a block. -/
def BootPage (x : BootSys) (v : Nat) : Prop :=
  v % 4096 = 0 ∧ (kheapStart ≤ v ∧ v ≤ kheapEnd ∨
    ∃ b ∈ x.live, b.ptr < v + 4096 + vmemHeader ∧ v < b.ptr + b.size)

/-- **Every page has a frame of its own**, and the bitmap shows it in use. -/
structure BootBacked (x : BootSys) : Prop where
  used : ∀ v, BootPage x v → ∃ k, k < x.st.pmm.totalPages ∧ x.st.pmm.bit k = true ∧
    ∀ o, o < 4096 → ∀ w, x.st.mem.translate w (v + o) = .ok (frameAddr k + o)
  apart : ∀ v v', BootPage x v → BootPage x v' → v ≠ v' →
    x.st.mem.translate false v ≠ x.st.mem.translate false v'

/-- The memory the code sees. -/
def Mmu.seen (m : Mmu) : Mem := fun v =>
  match m.translate false v with
  | .ok p => m.phys p
  | .error _ => 0

/-- The list of blocks, as the code sees it, runs over live blocks that are not
marked free. -/
def ListIntact (x : BootSys) : Prop :=
  ∃ as, Follows x.st.mem.seen 16 x.st.vmem.vmemList as ∧
    ∀ a ∈ as, (∃ b ∈ x.live, b.ptr = a + vmemHeader) ∧ load32 x.st.mem.seen (a + 8) = 0

/-- **The condition on a step**: no `vmalloc` between `pmm_init` and `paging_init`;
`vmalloc` after `paging_enable` finds no blocks made before it, or finds the list in
order all the same; and no size wraps around. -/
def BootClean (x : BootSys) : BootOp → Prop
  | .init => True
  | .vmalloc n => n = 0 ∨ x.phase ≠ .frames ∧ x.st.vmem.vmemCurrent + n + 4122 < 2 ^ 32 ∧
      ((∀ b ∈ x.live, b.made = x.phase) ∨ ListIntact x)

/-! ## The static tables -/

/-- **The mapping** while only the static tables are in use: page `j` of the first
12 MB has the frame of page `F j`, the kernel image its own, and nothing else a frame
of the image. -/
structure Mapped (img : Image) (m : Mmu) (F : Nat → Nat) : Prop where
  cr3 : m.cr3 = img.pageDirectory
  pde : ∀ i, i < 3 → pdeAt img m.phys i = img.pageTables + 4096 * i + 3
  pte : ∀ j, j < 3072 → load32 m.phys (img.pageTables + 4 * j) = F j * 4096 + 3
  low : ∀ j, j < 0x200 → F j = j
  high : ∀ j, 0x200 ≤ j → j < 3072 → 0x200 ≤ F j ∧ F j < 3072

/-- Where an access to `v` ends up. -/
def Mmu.place (m : Mmu) (F : Nat → Nat) (v : Nat) : Nat :=
  if m.pagingOn then F (v / 4096) * 4096 + v % 4096 else v

section Mapped

variable {m : Mmu} {F : Nat → Nat} {v : Nat}

theorem Mapped.setPhys {s : State Mmu} (h : Mapped img s.mem F) {d : Mem}
    (hd : ∀ x, StaticTables img x → d x = s.mem.phys x) : Mapped img (s.setPhys d).mem F where
  cr3 := h.cr3
  pde i hi := by
    rw [← h.pde i hi]
    exact load32_congr fun x h1 h2 => hd x (.inl ⟨by omega, by omega⟩)
  pte j hj := by
    rw [← h.pte j hj]
    exact load32_congr fun x h1 h2 => hd x (.inr ⟨by omega, by omega⟩)
  low := h.low
  high := h.high

theorem Mapped.tableOf (h : Mapped img m F) {i : Nat} (hi : i < 3) :
    tableOf img m.phys i = img.pageTables + 4096 * i := by
  have := img.ptAligned
  unfold Kfs.tableOf
  rw [h.pde i hi]
  omega

theorem Mapped.present (h : Mapped img m F) {i : Nat} (hi : i < 3) : Present img m.phys i := by
  have := img.ptAligned
  unfold Present
  rw [h.pde i hi]
  omega

theorem pdIndex_low (hv : v < 0xC00000) : pdIndex v < 3 := by
  unfold pdIndex
  omega

theorem Mapped.pteAddr (h : Mapped img m F) (hv : v < 0xC00000) :
    Kfs.tableOf img m.phys (pdIndex v) + 4 * ptIndex v = img.pageTables + 4 * (v / 4096) := by
  rw [h.tableOf (pdIndex_low hv)]
  unfold pdIndex ptIndex
  omega

/-- **Where an access ends up**, with paging on and with paging off. -/
theorem Mapped.translate (h : Mapped img m F) (hv : v < 0xC00000) (w : Bool) :
    m.translate w v = .ok (m.place F v) := by
  have hal := img.ptAligned
  unfold Mmu.place
  cases hon : m.pagingOn with
  | false => exact Mmu.translate_off hon w v
  | true =>
    have hi := pdIndex_low hv
    have hent : entryAt img m.phys v = F (v / 4096) * 4096 + 3 := by
      unfold entryAt
      rw [if_pos (h.present hi), h.pteAddr hv, h.pte _ (by omega)]
    rw [Walking.translate ⟨hon, h.cr3⟩ (by omega) w (by rw [h.pde _ hi]; omega)
      (by rw [hent]; omega), hent, if_pos rfl]
    congr 1
    omega

theorem Mapped.place_low (h : Mapped img m F) (hv : v < 0x200000) : m.place F v = v := by
  unfold Mmu.place
  rw [h.low _ (by omega)]
  split <;> omega

theorem Mapped.place_high (h : Mapped img m F) (hlo : 0x200000 ≤ v) (hv : v < 0xC00000) :
    0x200000 ≤ m.place F v := by
  have := h.high (v / 4096) (by omega) (by omega)
  unfold Mmu.place
  split <;> omega

theorem Mmu.place_add {i : Nat} (hi : v % 4096 + i < 4096) :
    m.place F (v + i) = m.place F v + i := by
  unfold Mmu.place
  split
  · rw [show (v + i) / 4096 = v / 4096 by omega]
    omega
  · rfl

variable {s : State Mmu}

theorem Mapped.ldTable (h : Mapped img s.mem F) (hv : v + 4 ≤ 0x200000) :
    ldTable v s = .ok (load32 s.mem.phys v) s := by
  refine loadAt_mmu (.inr rfl) (by omega) fun i hi => ?_
  rw [h.translate (by omega) false, h.place_low (by omega)]

theorem Mapped.stTable (h : Mapped img s.mem F) (hv : v + 4 ≤ 0x200000) (a : Nat) :
    stTable v a s = .ok () (s.setPhys (store32 s.mem.phys v a)) := by
  refine storeAt_mmu (.inr rfl) (by omega) (fun i hi => ?_) a
  rw [h.translate (by omega) true, h.place_low (by omega)]

theorem Mapped.st (h : Mapped img s.mem F) (hlo : 0x200000 ≤ v) (hv : v + 4 ≤ 0xC00000)
    (hpg : v % 4096 + 4 ≤ 4096) (a : Nat) :
    st v a s = .ok () (s.setPhys (store32 s.mem.phys (s.mem.place F v) a)) ∧
      Mapped img (s.setPhys (store32 s.mem.phys (s.mem.place F v) a)).mem F := by
  have hpd := img.pdHi
  have hpt := img.ptHi
  have hout := h.place_high hlo (by omega)
  refine ⟨?_, h.setPhys fun x hx => store32_other ?_⟩
  · unfold Kfs.st
    rw [Nat.mod_eq_of_lt (by omega)]
    refine storeAt_mmu (.inl rfl) (by omega) (fun i _ => ?_) a
    rw [h.translate (by omega) true, Mmu.place_add (by omega)]
  · rcases hx with hx | hx <;> omega

/-- `vmm_map_page` below 12 MB is one store into the static tables. -/
theorem Mapped.vmmMapPage (h : Mapped img s.mem F) (hv : v < 0xC00000) (phys flags : Nat) :
    vmmMapPage img v phys flags s = .ok 0
      (s.setPhys (store32 s.mem.phys (img.pageTables + 4 * (v / 4096)) (mapEntry phys flags))) := by
  have hpd := img.pdHi
  have hlo := img.ptLo
  have hhi := img.ptHi
  have hi := pdIndex_low hv
  have hpde : ReadsPde img s s.mem.phys v := h.ldTable (by omega)
  have hwalk := virtToPte_present (by omega) hpde (h.present hi) true
  rw [h.pteAddr hv] at hwalk
  rw [vmmMapPage_walk phys flags hwalk (by omega), bind_of_ok (h.stTable (by omega) _)]
  rfl

end Mapped

/-! ## Backing pages -/

/-- `F` after the pages `j, …, j + c - 1` have got the frames `n, n + 1, …`. -/
def assigned (F : Nat → Nat) (j c n i : Nat) : Nat :=
  if j ≤ i ∧ i < j + c then i - j + n + 0x100 else F i

theorem assigned_zero (F : Nat → Nat) (j n : Nat) : assigned F j 0 n = F := by
  funext i
  exact if_neg (by omega)

theorem assigned_append (F : Nat → Nat) (j c c' n : Nat) :
    assigned (assigned F j c n) (j + c) c' (n + c) = assigned F j (c + c') n := by
  funext i
  unfold assigned
  split
  · rw [if_pos (by omega)]
    omega
  · split
    · rw [if_pos (by omega)]
    · rw [if_neg (by omega)]

/-- **The state between two rounds** that back pages: the mapping, and the frames below
`n` in use. -/
structure BootMap (img : Image) (s : State Mmu) (F : Nat → Nat) (n : Nat) : Prop where
  map : Mapped img s.mem F
  used : Used s.pmm (· < n)
  ge : 256 ≤ n

section BootMap

variable {s : State Mmu} {F : Nat → Nat} {n : Nat}

theorem BootMap.set (h : BootMap img s F n) {j : Nat} (hlo : 0x200 ≤ j) (hj : j < 3072)
    (hn : n < 2304) :
    BootMap img { s.setPhys (store32 s.mem.phys (img.pageTables + 4 * j) (frameAddr n + 3)) with
      pmm := s.pmm.take n } (assigned F j 1 n) (n + 1) := by
  have hpd := img.pdHi
  have hap := img.apart
  have hge := h.ge
  refine ⟨⟨h.map.cr3, fun i hi => ?_, fun i hi => ?_, fun i hi => ?_, fun i h1 h2 => ?_⟩,
    (h.used.alloc_next hn).2, by omega⟩
  · rw [← h.map.pde i hi]
    exact load32_store32_ne (by omega)
  · unfold assigned
    by_cases hij : i = j
    · subst hij
      rw [if_pos (by omega)]
      refine (load32_store32 ?_).trans ?_ <;> simp only [frameAddr, pmmStart, pageSize] <;> omega
    · rw [if_neg (by omega), ← h.map.pte i hi]
      exact load32_store32_ne (by omega)
  · unfold assigned
    rw [if_neg (by omega)]
    exact h.map.low i hi
  · unfold assigned
    split
    · omega
    · exact h.map.high i h1 h2

/-- The round of `kheap_init` and `vmalloc` that backs page `j`. -/
theorem BootMap.back (h : BootMap img s F n) {j va : Nat} (hlo : 0x200 ≤ j) (hj : j < 3072)
    (hn : n < 2304) (hva : va = j * 4096) (noFrame noMap : K Mmu Unit) :
    (do
      let phys ← pmmAllocPage
      if phys = 0 then
        noFrame
      if (← vmmMapPage img va phys pageWrite) ≠ 0 then
        noMap : K Mmu Unit) s =
      .ok () { s.setPhys (store32 s.mem.phys (img.pageTables + 4 * j) (frameAddr n + 3)) with
        pmm := s.pmm.take n } := by
  subst hva
  have hr := (h.used.alloc_next hn).1
  have hmap := Mapped.vmmMapPage (s := { s with pmm := s.pmm.take n }) h.map (v := j * 4096)
    (by omega) (frameAddr n) pageWrite
  rw [mapEntry_frame (frameAddr_mod n) (by simp only [frameAddr, pmmStart, pageSize]; omega),
    show j * 4096 / 4096 = j by omega] at hmap
  rw [bind_of_ok hr]
  simp only [show pmmStart + n * pageSize ≠ 0 by simp, ↓reduceIte]
  exact (bind_of_ok hmap).trans rfl

/-- **A loop that backs the pages** `j, …, j + c - 1` gives them the next frames. -/
theorem BootMap.loop (h : BootMap img s F n) {f : Nat → K Mmu Unit} {j c : Nat} (hlo : 0x200 ≤ j)
    (hj : j + c ≤ 3072) (hn : n + c ≤ 2304)
    (hf : ∀ i, i < c → ∃ va noFrame noMap, va = (j + i) * 4096 ∧ f i = (do
      let phys ← pmmAllocPage
      if phys = 0 then
        noFrame
      if (← vmmMapPage img va phys pageWrite) ≠ 0 then
        noMap : K Mmu Unit)) :
    ∃ p d, forUp f 0 c s = .ok () { s.setPhys d with pmm := p } ∧
      BootMap img { s.setPhys d with pmm := p } (assigned F j c n) (n + c) ∧
      SameOff (StaticTables img) s.mem.phys d := by
  have hpt := img.ptHi
  have := forUp_total (f := f) (l := 0) (n := c) (s := s)
    (fun i t => ∃ p d, t = { s.setPhys d with pmm := p } ∧
      BootMap img t (assigned F j i n) (n + i) ∧ SameOff (StaticTables img) s.mem.phys d)
    ⟨s.pmm, s.mem.phys, rfl, by rw [assigned_zero]; exact h, SameOff.refl _ _⟩ ?_
  · obtain ⟨_, hr, p, d, rfl, hmap, hsame⟩ := this
    rw [Nat.zero_add] at hmap
    exact ⟨p, d, hr, hmap, hsame⟩
  rintro i _ - hi ⟨p, d, rfl, hmap, hsame⟩
  obtain ⟨va, noFrame, noMap, hva, he⟩ := hf i (by omega)
  have hback := hmap.back (by omega) (by omega) (by omega) hva noFrame noMap
  have hset := hmap.set (j := j + i) (by omega) (by omega) (by omega)
  rw [assigned_append] at hset
  exact ⟨_, by rw [he]; exact hback, _, _, rfl, hset,
    hsame.store32 fun x h1 h2 => .inr ⟨by omega, by omega⟩⟩

theorem BootMap.vmallocMap (h : BootMap img s F n) {j c : Nat} (hlo : 0x200 ≤ j)
    (hj : j + c ≤ 3072) (hn : n + c ≤ 2304) :
    ∃ p d, vmallocMap img (j * 4096) ((j + c) * 4096) s = .ok () { s.setPhys d with pmm := p } ∧
      BootMap img { s.setPhys d with pmm := p } (assigned F j c n) (n + c) ∧
      SameOff (StaticTables img) s.mem.phys d := by
  unfold Kfs.vmallocMap
  rw [show ((j + c) * 4096 - j * 4096 + (pageSize - 1)) / pageSize = c by
    simp only [pageSize]; omega]
  refine h.loop hlo hj hn fun i hi => ⟨_, _, _, ?_, rfl⟩
  simp only [pageSize]
  omega

theorem BootMap.kheapMap (h : BootMap img s F n) (hn : n + 256 ≤ 2304) :
    ∃ p d, kheapMap img s = .ok () { s.setPhys d with pmm := p } ∧
      BootMap img { s.setPhys d with pmm := p } (assigned F 0x200 256 n) (n + 256) ∧
      SameOff (StaticTables img) s.mem.phys d := by
  refine h.loop (j := 0x200) (c := 256) (by omega) (by omega) hn fun i hi => ⟨_, _, _, ?_, rfl⟩
  simp only [add32, kheapStart, pageSize]
  omega

/-- **`kheap_init`** gives the heap the next 256 frames. -/
theorem BootMap.kheapInit (h : BootMap img s F n) (hn : n + 256 ≤ 2304) :
    ∃ s', kheapInit img s = .ok () s' ∧ s'.mem.pagingOn = s.mem.pagingOn ∧
      BootMap img s' (assigned F 0x200 256 n) (n + 256) := by
  obtain ⟨p, d, hloop, hmap, -⟩ := BootMap.kheapMap
    (s := { s with kheap := ⟨kheapStart, kheapSize, 0, 0⟩ }) ⟨h.map, h.used, h.ge⟩ hn
  -- the header of the one free block
  obtain ⟨e1, m1⟩ := Mapped.st
    (s := { s.setPhys d with kheap := ⟨kheapStart, kheapSize, 0, kheapStart⟩, pmm := p }) hmap.map
    (v := kheapStart) (by decide) (by decide) (by decide) (kheapSize - headerSize)
  obtain ⟨e2, m2⟩ := m1.st (v := kheapStart + 4) (by decide) (by decide) (by decide) 1
  obtain ⟨e3, m3⟩ := m2.st (v := kheapStart + 12) (by decide) (by decide) (by decide) 0
  refine ⟨_, ?_, ?_, m3, hmap.used, hmap.ge⟩
  · unfold Kfs.kheapInit
    rw [modify_bind_apply, bind_of_ok hloop, modify_bind_apply, get_bind_apply]
    refine (bind_of_ok e1).trans ?_
    refine (bind_of_ok e2).trans ?_
    exact e3
  · rfl

end BootMap

/-! ## What the code sees -/

/-- The code sees `d` in the region below `e`, whose pages have different frames. -/
structure Shows (img : Image) (s : State Mmu) (F : Nat → Nat) (e : Nat) (d : Mem) : Prop where
  map : Mapped img s.mem F
  hi : e ≤ 0xC00000
  inj : ∀ i j, 0x300 ≤ i → i * 4096 < e → 0x300 ≤ j → j * 4096 < e → F i = F j → i = j
  sees : ∀ x, kvmemStart ≤ x → x < e → s.mem.seen x = d x

theorem Mapped.seen {m : Mmu} {F : Nat → Nat} {v : Nat} (h : Mapped img m F) (hv : v < 0xC00000) :
    m.seen v = m.phys (m.place F v) := by
  unfold Mmu.seen
  rw [h.translate hv]

section Shows

variable {s : State Mmu} {F : Nat → Nat} {e a : Nat} {d : Mem}

theorem Shows.congr {s' : State Mmu} (h : Shows img s F e d) (hm : s'.mem = s.mem) :
    Shows img s' F e d where
  map := hm ▸ h.map
  hi := h.hi
  inj := h.inj
  sees := hm ▸ h.sees

theorem Shows.byte (h : Shows img s F e d) {i : Nat} (ha : kvmemStart ≤ a) (hae : a + i < e)
    (hpg : a % 4096 + i < 4096) : s.mem.phys (s.mem.place F a + i) = d (a + i) := by
  have hi := h.hi
  rw [← h.sees (a + i) (by omega) hae, h.map.seen (by omega), Mmu.place_add hpg]

theorem Shows.ld (h : Shows img s F e d) (ha : kvmemStart ≤ a) (hae : a + 4 ≤ e)
    (hpg : a % 4096 + 4 ≤ 4096) : ld a s = .ok (load32 d a) s := by
  have hi := h.hi
  have hword : load32 d a = load32 s.mem.phys (s.mem.place F a) := by
    have h0 := h.byte (i := 0) ha (by omega) (by omega)
    have h1 := h.byte (i := 1) ha (by omega) (by omega)
    have h2 := h.byte (i := 2) ha (by omega) (by omega)
    have h3 := h.byte (i := 3) ha (by omega) (by omega)
    unfold load32
    rw [h1, h2, h3, show s.mem.phys (s.mem.place F a) = d a from h0]
  unfold Kfs.ld
  rw [Nat.mod_eq_of_lt (by omega), hword]
  refine loadAt_mmu (.inl rfl) (by omega) fun i _ => ?_
  rw [h.map.translate (by omega) false, Mmu.place_add (by omega)]

theorem Shows.place_apart (h : Shows img s F e d) {x : Nat} (ha : kvmemStart ≤ a) (hae : a + 4 ≤ e)
    (hpg : a % 4096 + 4 ≤ 4096) (hx : kvmemStart ≤ x) (hxe : x < e) (hne : x < a ∨ a + 4 ≤ x) :
    s.mem.place F x < s.mem.place F a ∨ s.mem.place F a + 4 ≤ s.mem.place F x := by
  simp only [kvmemStart] at ha hx
  unfold Mmu.place
  split
  · by_cases hpage : F (x / 4096) = F (a / 4096)
    · have := h.inj _ _ (by omega) (by omega) (by omega) (by omega) hpage
      omega
    · omega
  · exact hne

/-- **A store** in the region. -/
theorem Shows.st (h : Shows img s F e d) (ha : kvmemStart ≤ a) (hae : a + 4 ≤ e)
    (hpg : a % 4096 + 4 ≤ 4096) (v : Nat) :
    ∃ q, st a v s = .ok () (s.setPhys q) ∧ Shows img (s.setPhys q) F e (store32 d a v) := by
  have hi := h.hi
  have hlo : 0x200000 ≤ a := by
    simp only [kvmemStart] at ha
    omega
  obtain ⟨hst, hmap⟩ := h.map.st hlo (by omega) hpg v
  refine ⟨_, hst, hmap, hi, h.inj, fun x hx hxe => ?_⟩
  rw [hmap.seen (by omega)]
  show store32 s.mem.phys (s.mem.place F a) v (s.mem.place F x) = _
  by_cases hin : x < a ∨ a + 4 ≤ x
  · rw [store32_other (h.place_apart ha hae hpg hx hxe hin), store32_other hin,
      ← h.sees x hx hxe, h.map.seen (by omega)]
  · obtain ⟨i, rfl⟩ : ∃ i, x = a + i := ⟨x - a, by omega⟩
    rw [Mmu.place_add (by omega)]
    apply BitVec.eq_of_toNat_eq
    rw [store32_byte _ _ _ (by omega), store32_byte _ _ _ (by omega)]

theorem Shows.skip (h : Shows img s F e d) (ha : kvmemStart ≤ a) (hae : a + 20 ≤ e)
    (hal : a % 4096 = 0) (hused : load32 d (a + 8) = 0) (r prev : Nat) :
    vmallocStep r (prev, a) s = .ok (.inl (a, load32 d (a + 16))) s := by
  have hfree : (do return (← Kfs.ld (a + 8)) ≠ 0 : K Mmu Bool) s = .ok false s := by
    rw [bind_of_ok (h.ld (by omega) (by omega) (by omega)), hused]
    rfl
  have hfit : vmemFits a r s = .ok false s := andThen_pure hfree (q := false) (by simp)
  unfold vmallocStep
  simp only [show a ≠ 0 by simp only [kvmemStart] at ha; omega, ↓reduceIte]
  rw [bind_of_ok hfit]
  simp only [Bool.false_eq_true, ↓reduceIte]
  rw [bind_of_ok (h.ld (by omega) (by omega) (by omega))]
  rfl

/-- **The search** over a list without free blocks ends at its last one. -/
theorem Shows.search (h : Shows img s F e d) {q r n : Nat} {as : List Nat} {res : VSearch}
    {s' : State Mmu} (hf : Follows d 16 q as)
    (has : ∀ b ∈ as, kvmemStart ≤ b ∧ b + 20 ≤ e ∧ b % 4096 = 0 ∧ load32 d (b + 8) = 0)
    (hr : iterate .outOfFuel (vmallocStep r) n (0, q) s = .ok res s') :
    s' = s ∧ res = .last (as.getLastD 0) := by
  refine iterate_inv (fun (at_ : Nat × Nat) t => t = s ∧ ∃ pre post, as = pre ++ post ∧
    Follows d 16 at_.2 post ∧ at_.1 = pre.getLastD 0)
      (fun res t => t = s ∧ res = .last (as.getLastD 0))
    ?_ ?_ hr ⟨rfl, [], as, rfl, hf, rfl⟩
  · rintro ⟨prev, cur⟩ _ out t ⟨rfl, pre, post, rfl, hcur, rfl⟩ hstep
    cases hcur with
    | nil => cases hstep
    | @cons _ post _ hrest =>
      obtain ⟨h1, h2, h3, h4⟩ := has cur (by simp)
      rw [h.skip h1 h2 h3 h4] at hstep
      cases hstep
      exact ⟨rfl, pre ++ [cur], post, by simp, hrest, by simp⟩
  · rintro ⟨prev, cur⟩ _ out t ⟨rfl, pre, post, rfl, hcur, rfl⟩ hstep
    cases hcur with
    | nil =>
      cases hstep
      exact ⟨rfl, by simp⟩
    | cons _ _ =>
      obtain ⟨h1, h2, h3, h4⟩ := has cur (by simp)
      rw [h.skip h1 h2 h3 h4] at hstep
      cases hstep

/-- **The block of the new pages**, linked to the block at `prev` if there is one. -/
theorem Shows.append (h : Shows img s F e d) (r k z : Nat) {prev : Nat}
    (hcur : s.vmem.vmemCurrent = a) (ha : kvmemStart ≤ a) (hae : a + 20 ≤ e) (hal : a % 4096 = 0)
    (hprev : prev ≠ 0 → kvmemStart ≤ prev ∧ prev + 20 ≤ e ∧ prev % 4096 = 0) :
    ∃ q c, vmemAppend r prev k z s = .ok (a + 20) { s.setPhys q with
        vmem := ⟨z, add32 s.vmem.vmemSize (k * pageSize % 2 ^ 32),
          if prev ≠ 0 then s.vmem.vmemList else a⟩ } ∧
      Shows img (s.setPhys q) F e (vlinked (newHeader d a r c) prev a) := by
  have hi := h.hi
  have hptr : add32 a vmemHeader = a + 20 := by
    simp only [vmemHeader, add32]
    omega
  obtain ⟨q₁, e1, h1⟩ := h.st ha (by omega) (by omega) r
  obtain ⟨q₂, e2, h2⟩ := h1.st (a := a + 4) (by omega) (by omega) (by omega)
    (sub32 (k * pageSize % 2 ^ 32) vmemHeader)
  obtain ⟨q₃, e3, h3⟩ := h2.st (a := a + 8) (by omega) (by omega) (by omega) 0
  obtain ⟨q₄, e4, h4⟩ := h3.st (a := a + 12) (by omega) (by omega) (by omega) vmemMagicAllocated
  obtain ⟨q₅, e5, h5⟩ := h4.st (a := a + 16) (by omega) (by omega) (by omega) 0
  unfold vmemAppend
  rw [get_bind_apply, hcur]
  simp only [hptr]
  rw [bind_of_ok e1, bind_of_ok e2, bind_of_ok e3, bind_of_ok e4, bind_of_ok e5]
  by_cases hp : prev = 0
  · refine ⟨q₅, sub32 (k * pageSize % 2 ^ 32) vmemHeader, ?_, ?_⟩
    · simp only [hp, ne_eq, not_true_eq_false, ↓reduceIte]
      rfl
    · rw [vlinked, if_neg (by simpa using hp)]
      exact h5
  · obtain ⟨hp1, hp2, hp3⟩ := hprev hp
    obtain ⟨q₆, e6, h6⟩ := h5.st (a := prev + 16) (by omega) (by omega) (by omega) a
    refine ⟨q₆, sub32 (k * pageSize % 2 ^ 32) vmemHeader, ?_, ?_⟩
    · simp only [ne_eq, hp, not_false_eq_true, ↓reduceIte]
      rw [bind_of_ok e6]
      rfl
    · rw [vlinked, if_pos hp]
      exact h6

end Shows

end Kfs
