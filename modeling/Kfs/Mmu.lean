import Kfs.PagingRun

/-!
# Memory behind the paging hardware

`Mmu` is physical memory with the two control registers the kernel uses. With
the PG bit clear an address is physical. With it set, every byte of an access
goes through the page directory that CR3 names, so a page-table word is reached
like any other data: through the mapping of its own address. The walk reads the
tables as they are in memory; there is no TLB, and no accessed or dirty bits.

Software that follows a table's address as a pointer therefore sees what the
hardware sees only where that address is mapped to itself. `IdentityTables` is
the mapping of the first 12 MB to itself, `translate_low` says that an access
there is one to physical memory, and `plain_low` that code which keeps off the
tables cannot tell the difference.
-/

namespace Kfs

open Kfs.Lib

structure Mmu where
  phys : Mem
  cr0 : Nat
  cr3 : Nat

namespace Mmu

/-- The PG bit. -/
def pagingOn (m : Mmu) : Bool := m.cr0.testBit 31

/-- The WP bit: supervisor writes need write permission too. -/
def writeProtect (m : Mmu) : Bool := m.cr0.testBit 16

/-- Entry `i` of the directory the hardware uses. -/
def dirEntry (m : Mmu) (i : Nat) : Nat := load32 m.phys ((m.cr3 &&& 0xFFFFF000) + 4 * i)

/-- The physical address of the page-table entry that the hardware consults for `v`. -/
def pteAddr (m : Mmu) (v : Nat) : Nat :=
  (m.dirEntry ((v >>> 22) &&& 0x3FF) &&& 0xFFFFF000) + 4 * ((v >>> 12) &&& 0x3FF)

/-- The physical address of the byte at `v`. -/
def translate (m : Mmu) (write : Bool) (v : Nat) : Except Trap Nat :=
  if !m.pagingOn then .ok v
  else
    let pde := m.dirEntry ((v >>> 22) &&& 0x3FF)
    if pde &&& pagePresent = 0 then .error (.pageFault v)
    else
      let pte := load32 m.phys (m.pteAddr v)
      if pte &&& pagePresent = 0 then .error (.pageFault v)
      else if write && m.writeProtect && (pde &&& pageWrite = 0 || pte &&& pageWrite = 0) then
        .error (.pageFault v)
      else .ok ((pte &&& 0xFFFFF000) + (v &&& 0xFFF))

theorem translate_off {m : Mmu} (h : m.pagingOn = false) (w : Bool) (v : Nat) :
    m.translate w v = .ok v := by
  unfold translate
  rw [h]
  rfl

def loadWord (m : Mmu) (a : Nat) : Except Trap Nat := do
  let p0 ← m.translate false a
  let p1 ← m.translate false ((a + 1) % 2 ^ 32)
  let p2 ← m.translate false ((a + 2) % 2 ^ 32)
  let p3 ← m.translate false ((a + 3) % 2 ^ 32)
  return (m.phys p0).toNat + 2 ^ 8 * (m.phys p1).toNat + 2 ^ 16 * (m.phys p2).toNat +
    2 ^ 24 * (m.phys p3).toNat

/-- All four bytes are translated before one is written. -/
def storeWord (m : Mmu) (a v : Nat) : Except Trap Mmu := do
  let p0 ← m.translate true a
  let p1 ← m.translate true ((a + 1) % 2 ^ 32)
  let p2 ← m.translate true ((a + 2) % 2 ^ 32)
  let p3 ← m.translate true ((a + 3) % 2 ^ 32)
  let d := storeByte (storeByte m.phys p0 (.ofNat 8 v)) p1 (.ofNat 8 (v / 2 ^ 8))
  return { m with
    phys := storeByte (storeByte d p2 (.ofNat 8 (v / 2 ^ 16))) p3 (.ofNat 8 (v / 2 ^ 24)) }

end Mmu

instance : Bus Mmu where
  load m
    | .data a => m.loadWord a
    | .table a => m.loadWord a
  store m
    | .data a, v => m.storeWord a v
    | .table a, v => m.storeWord a v
  readCr0 m := m.cr0
  writeCr0 m v := { m with cr0 := v }
  loadCr3 m v := { m with cr3 := v }

def State.setPhys (s : State Mmu) (d : Mem) : State Mmu :=
  { s with mem := { s.mem with phys := d } }

/-! ## One word -/

section Word

variable {m : Mmu} {a p : Nat}

theorem Mmu.loadWord_eq (ha : a + 4 ≤ 2 ^ 32)
    (h : ∀ i, i < 4 → m.translate false (a + i) = .ok (p + i)) :
    m.loadWord a = .ok (load32 m.phys p) := by
  unfold Mmu.loadWord load32
  rw [Nat.mod_eq_of_lt (by omega), Nat.mod_eq_of_lt (by omega), Nat.mod_eq_of_lt (by omega),
    h 1 (by omega), h 2 (by omega), h 3 (by omega), show m.translate false a =
      .ok p from h 0 (by omega)]
  rfl

theorem Mmu.storeWord_eq (ha : a + 4 ≤ 2 ^ 32)
    (h : ∀ i, i < 4 → m.translate true (a + i) = .ok (p + i)) (v : Nat) :
    m.storeWord a v = .ok { m with phys := store32 m.phys p v } := by
  unfold Mmu.storeWord
  rw [Nat.mod_eq_of_lt (by omega), Nat.mod_eq_of_lt (by omega), Nat.mod_eq_of_lt (by omega),
    h 1 (by omega), h 2 (by omega), h 3 (by omega), show m.translate true a =
      .ok p from h 0 (by omega)]
  rfl

variable {s : State Mmu}

theorem loadAt_mmu {l : Loc} (hl : l = .data a ∨ l = .table a) (ha : a + 4 ≤ 2 ^ 32)
    (h : ∀ i, i < 4 → s.mem.translate false (a + i) = .ok (p + i)) :
    loadAt l s = .ok (load32 s.mem.phys p) s := by
  have hw := Mmu.loadWord_eq ha h
  unfold loadAt
  rcases hl with rfl | rfl <;> simp only [Bus.load, hw]

theorem storeAt_mmu {l : Loc} (hl : l = .data a ∨ l = .table a) (ha : a + 4 ≤ 2 ^ 32)
    (h : ∀ i, i < 4 → s.mem.translate true (a + i) = .ok (p + i)) (v : Nat) :
    storeAt l v s = .ok () (s.setPhys (store32 s.mem.phys p v)) := by
  have hw := Mmu.storeWord_eq ha h v
  unfold storeAt
  rcases hl with rfl | rfl <;> simp only [Bus.store, hw] <;> rfl

end Word

/-! ## The hardware walk over the kernel's tables -/

/-- Paging is on, with the kernel's directory. -/
structure Walking (img : Image) (m : Mmu) : Prop where
  on : m.pagingOn = true
  cr3 : m.cr3 = img.pageDirectory

variable {img : Image}

theorem and_pageWrite {e : Nat} (h : e % 4 = 3) : e &&& pageWrite ≠ 0 := by
  have hbit : (e &&& 2).testBit 1 = true := by
    rw [Nat.testBit_and, Nat.testBit_eq_decide_div_mod_eq, decide_eq_true (by omega)]
    rfl
  intro h0
  rw [show e &&& 2 = 0 from h0] at hbit
  cases hbit

theorem Walking.dirEntry {m : Mmu} (h : Walking img m) (i : Nat) :
    m.dirEntry i = pdeAt img m.phys i := by
  have hal := img.pdAligned
  have hhi := img.pdHi
  unfold Mmu.dirEntry pdeAt
  rw [h.cr3, and_maskPage _ (by omega), hal, Nat.sub_zero]

theorem Walking.pteAddr {m : Mmu} (h : Walking img m) {v : Nat} (hv : v < 2 ^ 32) :
    m.pteAddr v = tableOf img m.phys (pdIndex v) + 4 * ptIndex v := by
  unfold Mmu.pteAddr
  rw [h.dirEntry, pdIndex_eq hv, ptIndex_eq, tableOf_eq]

/-- **The hardware walk** through a writable slot and a writable entry. -/
theorem Walking.translate {m : Mmu} (h : Walking img m) {v : Nat} (hv : v < 2 ^ 32) (w : Bool)
    (hp : pdeAt img m.phys (pdIndex v) % 4 = 3) (he : entryAt img m.phys v % 4 = 3) :
    m.translate w v = .ok (entryAt img m.phys v - entryAt img m.phys v % 4096 + v % 4096) := by
  have hpres : Present img m.phys (pdIndex v) := by
    unfold Present
    omega
  have hent : entryAt img m.phys v = load32 m.phys (m.pteAddr v) := by
    unfold entryAt
    rw [if_pos hpres, h.pteAddr hv]
  have hlt : entryAt img m.phys v < 2 ^ 32 := hent ▸ load32_lt _ _
  unfold Mmu.translate
  simp only [h.on, Bool.not_true, Bool.false_eq_true, ↓reduceIte, h.dirEntry, pdIndex_eq hv, ← hent]
  rw [if_neg (by rw [and_pagePresent]; omega), if_neg (by rw [and_pagePresent]; omega)]
  simp only [and_pageWrite hp, and_pageWrite he, decide_false, Bool.or_self, Bool.and_false,
    Bool.false_eq_true, ↓reduceIte]
  rw [and_maskPage _ hlt, and_offset]

/-- The first 12 MB mapped to themselves by the static tables. -/
structure IdentityTables (img : Image) (t : Mem) : Prop where
  pde : ∀ i, i < 3 → pdeAt img t i = img.pageTables + 4096 * i + 3
  pte : ∀ i j, i < 3 → j < 1024 →
    load32 t (img.pageTables + 4096 * i + 4 * j) = (i * 1024 + j) * 4096 + 3

theorem InitialTables.low {t : Mem} (h : InitialTables img t) : IdentityTables img t where
  pde i hi := by
    rw [h.pde i (by omega), if_pos hi]
  pte := h.pte

theorem IdentityTables.congr {t t' : Mem} (h : IdentityTables img t)
    (ht : ∀ x, StaticTables img x → t' x = t x) : IdentityTables img t' where
  pde i hi := by
    rw [← h.pde i hi]
    exact load32_congr fun x h1 h2 => ht x (.inl ⟨by omega, by omega⟩)
  pte i j hi hj := by
    rw [← h.pte i j hi hj]
    exact load32_congr fun x h1 h2 => ht x (.inr ⟨by omega, by omega⟩)

theorem IdentityTables.tableOf {t : Mem} (h : IdentityTables img t) {i : Nat} (hi : i < 3) :
    tableOf img t i = img.pageTables + 4096 * i := by
  have := img.ptAligned
  unfold Kfs.tableOf
  rw [h.pde i hi]
  omega

theorem IdentityTables.present {t : Mem} (h : IdentityTables img t) {i : Nat} (hi : i < 3) :
    Present img t i := by
  have := img.ptAligned
  unfold Present
  rw [h.pde i hi]
  omega

theorem IdentityTables.entryAt {t : Mem} (h : IdentityTables img t) {v : Nat} (hv : v < 0xC00000) :
    entryAt img t v = v - v % 4096 + 3 := by
  have hi : pdIndex v < 3 := by
    unfold pdIndex
    omega
  unfold Kfs.entryAt
  rw [if_pos (h.present hi), h.tableOf hi, h.pte _ _ hi (ptIndex_lt v)]
  unfold pdIndex ptIndex
  omega

theorem Walking.translate_self {m : Mmu} (h : Walking img m) {v : Nat} (hv : v < 2 ^ 32)
    (hp : pdeAt img m.phys (pdIndex v) % 4 = 3) (he : entryAt img m.phys v = v - v % 4096 + 3)
    (w : Bool) : m.translate w v = .ok v := by
  rw [h.translate hv w hp (by omega), he]
  congr 1
  omega

/-- **Below 12 MB** an address is its own physical address. -/
theorem Walking.translate_low {m : Mmu} (h : Walking img m) (hid : IdentityTables img m.phys)
    {v : Nat} (hv : v < 0xC00000) (w : Bool) : m.translate w v = .ok v := by
  have hal := img.ptAligned
  have hi : pdIndex v < 3 := by
    unfold pdIndex
    omega
  exact h.translate_self (by omega) (by rw [hid.pde _ hi]; omega) (hid.entryAt hv) w

section Low

variable {s : State Mmu} {a : Nat}

theorem ldTable_low (h : Walking img s.mem) (hid : IdentityTables img s.mem.phys)
    (ha : a + 4 ≤ 0xC00000) : ldTable a s = .ok (load32 s.mem.phys a) s :=
  loadAt_mmu (.inr rfl) (by omega) fun i _ => h.translate_low hid (by omega) false

theorem stTable_low (h : Walking img s.mem) (hid : IdentityTables img s.mem.phys)
    (ha : a + 4 ≤ 0xC00000) (v : Nat) :
    stTable a v s = .ok () (s.setPhys (store32 s.mem.phys a v)) :=
  storeAt_mmu (.inr rfl) (by omega) (fun i _ => h.translate_low hid (by omega) true) v

theorem readsPde_low (h : Walking img s.mem) (hid : IdentityTables img s.mem.phys) {v : Nat}
    (hv : v < 2 ^ 32) : ReadsPde img s s.mem.phys v := by
  have := img.pdHi
  have := pdIndex_lt hv
  exact ldTable_low h hid (by omega)

end Low

/-! ## Ports -/

def physData : Port Mmu where
  loc := .data
  get m := m.phys
  set m d := { m with phys := d }
  get_set _ _ := rfl
  set_set _ _ _ := rfl
  set_get _ := rfl

theorem physData_isData : physData.IsData := fun _ => rfl

def physTable : Port Mmu where
  loc := .table
  get m := m.phys
  set m d := { m with phys := d }
  get_set _ _ := rfl
  set_set _ _ _ := rfl
  set_get _ := rfl

/-- Memory is plain where addresses below a limit are their own physical addresses, and
stay so whatever is written outside the bytes `T`. -/
theorem plain_identity {m : Mmu} {P : Port Mmu} (hP : P = physData ∨ P = physTable) {lim : Nat}
    (hlim : lim ≤ 2 ^ 32) {T W : Nat → Prop} (hW : ∀ x, W x → x < lim ∧ ¬ T x)
    (htr : ∀ d, (∀ x, T x → d x = m.phys x) → ∀ v, v < lim → ∀ w,
      ({ m with phys := d } : Mmu).translate w v = .ok v) : Plain P m W := by
  have key : ∀ d, SameOff W m.phys d → ∀ a, (∀ x, a ≤ x → x < a + 4 → W x) →
      ({ m with phys := d } : Mmu).loadWord a = .ok (load32 d a) ∧
      ∀ v, ({ m with phys := d } : Mmu).storeWord a v = .ok { m with phys := store32 d a v } := by
    intro d hd a ha
    have hend : a + 3 < lim := (hW _ (ha (a + 3) (by omega) (by omega))).1
    have hd : ∀ x, T x → d x = m.phys x := fun x hx => hd x fun hw => (hW x hw).2 hx
    exact ⟨Mmu.loadWord_eq (by omega) fun i hi => htr d hd _ (by omega) _,
      fun v => Mmu.storeWord_eq (by omega) (fun i hi => htr d hd _ (by omega) _) v⟩
  rcases hP with rfl | rfl
  · exact key
  · exact key

theorem physTable_plain_off {m : Mmu} (hoff : m.pagingOn = false) {W : Nat → Prop}
    (hW : ∀ x, W x → x < 2 ^ 32) : Plain physTable m W :=
  plain_identity (T := fun _ => False) (.inr rfl) (Nat.le_refl _) (fun x hx => ⟨hW x hx, id⟩)
    fun d _ v _ w => Mmu.translate_off (m := { m with phys := d }) hoff w v

/-- With the first 12 MB mapped to themselves, memory below that is plain as long as
the static tables are left alone. -/
theorem plain_low {m : Mmu} (h : Walking img m) (hid : IdentityTables img m.phys) {P : Port Mmu}
    (hP : P = physData ∨ P = physTable) {W : Nat → Prop}
    (hW : ∀ x, W x → x < 0xC00000 ∧ ¬ StaticTables img x) : Plain P m W := by
  refine plain_identity hP (by omega) hW fun d hd v hv w => ?_
  exact Walking.translate_low (m := { m with phys := d }) ⟨h.on, h.cr3⟩ (hid.congr hd) hv w

end Kfs
