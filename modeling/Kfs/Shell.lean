import Kfs.Vmem

/-!
# The memory commands of the shell (`shell.c`)

Each command is modelled from its parsed arguments on, with what it prints left
out. `ktest` and `vtest` are one test of an allocator. `write` and `read` touch
the word at an address only if the allocator of its region gives a size of at
least 4 for it; of what `ksize` and `vsize` check, a returned size keeps the
magic 8 bytes below the address (`ksize_ok`, `vsize_ok`).
-/

namespace Kfs

open Kfs.Lib

@[simp] def vmemStart : Nat := 0x00600000
@[simp] def vmemEnd : Nat := 0x006FFFFF

variable {M : Type} [Bus M] (img : Image)

def cmdKmalloc (n : Nat) : K M Nat := kmalloc n

def cmdKfree (a : Nat) : K M Unit := kfree a

def cmdVmalloc (n : Nat) : K M Nat := vmalloc img n

def cmdVfree (a : Nat) : K M Unit := vfree a

/-- What `ktest` and `vtest` report: the pointer, the word read back and the size. -/
structure AllocTest where
  ptr : Nat
  value : Nat
  got : Nat

/-- Allocate, write a word, read it back, ask for the size, free; `none` where the
allocation failed. -/
def allocTest (alloc size : Nat → K M Nat) (free : Nat → K M Unit) (nbytes value : Nat) :
    K M (Option AllocTest) := do
  let ptr ← alloc nbytes
  if ptr = 0 then return none
  st ptr value
  let back ← ld ptr
  let got ← size ptr
  free ptr
  return some ⟨ptr, back, got⟩

def cmdKtest (nbytes value : Nat) : K M (Option AllocTest) :=
  allocTest kmalloc ksize kfree nbytes value

def cmdVtest (nbytes value : Nat) : K M (Option AllocTest) :=
  allocTest (vmalloc img) vsize vfree nbytes value

/-- The allocator an address belongs to, `alloc_type` of the source. -/
inductive AllocType where
  | unknown
  | kmalloc
  | kvmalloc
  | vmalloc
  deriving DecidableEq, Repr

def AllocType.text : AllocType → String
  | .unknown => "unknown"
  | .kmalloc => "kmalloc"
  | .kvmalloc => "kvmalloc"
  | .vmalloc => "vmalloc"

/-- The size that the allocator of its region gives for `addr`; 0 outside the regions. -/
def allocSize (addr : Nat) : K M (AllocType × Nat) := do
  if addr ≥ kheapStart && addr < kheapEnd then
    return (.kmalloc, ← ksize addr)
  else if addr ≥ kvmemStart && addr < kvmemEnd then
    return (.kvmalloc, ← vsize addr)
  else if addr ≥ vmemStart && addr < vmemEnd then
    return (.vmalloc, ← vsize addr)
  else
    return (.unknown, 0)

/-- Whether the word was written. -/
def cmdWrite (addr val : Nat) : K M Bool := do
  if val > 0x7FFFFFFF then return false
  if addr < 0x00100000 then
    kpanicFatal "write: attempt to write to BIOS memory at %p\n" [addr]
  let (type, size) ← allocSize addr
  if size > 0 then
    if 4 > size then
      kpanicFatal ("write: buffer overflow detected! Writing 4 bytes to " ++ type.text ++
        " allocation of %d bytes at %p\n") [size, addr]
    st addr val
    return true
  else
    return false

/-- The word read, if it was. -/
def cmdRead (addr : Nat) : K M (Option Nat) := do
  let (type, size) ← allocSize addr
  if size > 0 then
    if 4 > size then
      kpanicFatal ("read: buffer overflow detected! Reading 4 bytes from " ++ type.text ++
        " allocation of %d bytes at %p\n") [size, addr]
    return some (← ld addr)
  else
    return none

/-! ## What a size tells -/

section Size

variable {s s' : State Flat} {a z : Nat}

theorem same_frame : Frame fun s s' : State Flat => s' = s where
  refl _ := rfl
  trans h h' := h'.trans h

theorem ld_same (a : Nat) : Keeps (fun s s' => s' = s) (ld a : K Flat Nat) := by
  rintro s v s' h
  cases h
  rfl

theorem isValidKheapBlock_same (a : Nat) :
    Keeps (fun s s' => s' = s) (isValidKheapBlock a : K Flat Bool) := by
  refine .bind same_frame (.get same_frame) fun h => .ite (.pure same_frame _)
    (.ite (.pure same_frame _) (.iterate same_frame (fun cur => ?_) _ _))
  exact .ite (.pure same_frame _) (.ite (.pure same_frame _)
    (.bind same_frame (ld_same _) fun _ => .pure same_frame _))

theorem isValidAllocatedBlock_same (a : Nat) :
    Keeps (fun s s' => s' = s) (isValidAllocatedBlock a : K Flat Bool) := by
  refine .bind same_frame (.get same_frame) fun v => .ite (.pure same_frame _)
    (.ite (.pure same_frame _) (.iterate same_frame (fun cur => ?_) _ _))
  exact .ite (.pure same_frame _) (.ite (.pure same_frame _)
    (.bind same_frame (ld_same _) fun _ => .pure same_frame _))

theorem isValidKheapBlock_lo (h : isValidKheapBlock a s = .ok true s') : s.kheap.heapBase ≤ a := by
  unfold isValidKheapBlock at h
  rw [get_bind_apply] at h
  split at h
  · cases h
  · rename_i hlow
    simp only [Bool.or_eq_true, decide_eq_true_eq] at hlow
    omega

/-- **What `ksize` found**, when it gives a size. -/
theorem ksize_ok (h : ksize a s = .ok z s') (ha : kheapStart ≤ a) (ha' : a < 2 ^ 32) :
    s' = s ∧ (z ≠ 0 → s.kheap.heapBase + 16 ≤ a ∧ load32 s.mem.data (a - 8) = magicAllocated ∧
      z = load32 s.mem.data (a - 16)) := by
  simp only [kheapStart] at ha
  have hblk : sub32 a headerSize = a - 16 := by
    simp only [sub32, headerSize]
    omega
  unfold ksize at h
  rw [if_neg (by omega), get_bind_apply] at h
  split at h
  · cases h
    exact ⟨rfl, fun h => absurd rfl h⟩
  dsimp only at h
  rw [hblk, show a - 16 + 8 = a - 8 by omega, bind_of_ok (ld_flat (by omega) s)] at h
  split at h
  · cases h
    exact ⟨rfl, fun h => absurd rfl h⟩
  · rename_i hmagic
    rw [not_not] at hmagic
    obtain ⟨ok, t, hvalid, hrest⟩ := bind_eq_ok.mp h
    have ht := isValidKheapBlock_same _ _ _ _ hvalid
    subst ht
    cases ok with
    | false =>
      cases hrest
      exact ⟨rfl, fun h => absurd rfl h⟩
    | true =>
      have hlo := isValidKheapBlock_lo hvalid
      have hrest : ld (a - 16) t = .ok z s' := hrest
      rw [ld_flat (by omega)] at hrest
      cases hrest
      exact ⟨rfl, fun _ => ⟨by omega, hmagic, rfl⟩⟩

theorem isValidAllocatedBlock_lo (h : isValidAllocatedBlock a s = .ok true s') :
    kvmemStart ≤ a := by
  unfold isValidAllocatedBlock at h
  rw [get_bind_apply] at h
  split at h
  · cases h
  · rename_i hlow
    simp only [Bool.or_eq_true, decide_eq_true_eq] at hlow
    omega

/-- **What `vsize` found**, when it gives a size. -/
theorem vsize_ok (h : vsize a s = .ok z s') (ha : kvmemStart ≤ a) (ha' : a < 2 ^ 32) :
    s' = s ∧ (z ≠ 0 → kvmemStart + 20 ≤ a ∧ a < s.vmem.vmemCurrent ∧
      load32 s.mem.data (a - 8) = vmemMagicAllocated ∧ z = load32 s.mem.data (a - 20)) := by
  simp only [kvmemStart] at ha ⊢
  have hblk : sub32 a vmemHeader = a - 20 := by
    simp only [sub32, vmemHeader]
    omega
  unfold vsize at h
  rw [if_neg (by omega), get_bind_apply] at h
  split at h
  · cases h
    exact ⟨rfl, fun h => absurd rfl h⟩
  rename_i hcur
  simp only [Bool.or_eq_true, decide_eq_true_eq] at hcur
  dsimp only at h
  rw [hblk, show a - 20 + 12 = a - 8 by omega, bind_of_ok (ld_flat (by omega) s)] at h
  split at h
  · cases h
    exact ⟨rfl, fun h => absurd rfl h⟩
  · rename_i hmagic
    rw [not_not] at hmagic
    obtain ⟨ok, t, hvalid, hrest⟩ := bind_eq_ok.mp h
    have ht := isValidAllocatedBlock_same _ _ _ _ hvalid
    subst ht
    cases ok with
    | false =>
      cases hrest
      exact ⟨rfl, fun h => absurd rfl h⟩
    | true =>
      have hlo := isValidAllocatedBlock_lo hvalid
      simp only [kvmemStart] at hlo
      have hrest : ld (a - 20) t = .ok z s' := hrest
      rw [ld_flat (by omega)] at hrest
      cases hrest
      exact ⟨rfl, fun _ => ⟨by omega, by omega, hmagic, rfl⟩⟩

/-- A size for `a`, with the region it was found in. -/
def Sized (s : State Flat) (a z : Nat) : Prop :=
  load32 s.mem.data (a - 8) = magicAllocated ∧
    ((s.kheap.heapBase + 16 ≤ a ∧ a < kheapEnd ∧ z = load32 s.mem.data (a - 16)) ∨
      (kvmemStart + 20 ≤ a ∧ a < s.vmem.vmemCurrent ∧ z = load32 s.mem.data (a - 20)))

theorem allocSize_ok {type : AllocType} (h : allocSize a s = .ok (type, z) s') (ha : a < 2 ^ 32) :
    s' = s ∧ (z ≠ 0 → Sized s a z) := by
  have hv : ∀ {ty}, kvmemStart ≤ a →
      (do return (ty, ← vsize a) : K Flat (AllocType × Nat)) s = .ok (type, z) s' →
      s' = s ∧ (z ≠ 0 → Sized s a z) := by
    intro ty hlo h
    obtain ⟨z', t, hsize, h⟩ := bind_eq_ok.mp h
    cases h
    obtain ⟨rfl, hz⟩ := vsize_ok hsize hlo ha
    refine ⟨rfl, fun h0 => ?_⟩
    obtain ⟨h1, h2, h3, h4⟩ := hz h0
    exact ⟨h3, .inr ⟨h1, h2, h4⟩⟩
  unfold allocSize at h
  split at h
  · rename_i hin
    simp only [ge_iff_le, Bool.and_eq_true, decide_eq_true_eq] at hin
    obtain ⟨z', t, hsize, h⟩ := bind_eq_ok.mp h
    cases h
    obtain ⟨rfl, hz⟩ := ksize_ok hsize hin.1 ha
    refine ⟨rfl, fun h0 => ?_⟩
    obtain ⟨h1, h2, h3⟩ := hz h0
    exact ⟨h2, .inl ⟨h1, hin.2, h3⟩⟩
  · split at h
    · rename_i hin
      simp only [ge_iff_le, Bool.and_eq_true, decide_eq_true_eq] at hin
      exact hv hin.1 h
    · split at h
      · rename_i hin
        simp only [ge_iff_le, Bool.and_eq_true, decide_eq_true_eq] at hin
        refine hv ?_ h
        simp only [vmemStart, kvmemStart] at *
        omega
      · cases h
        exact ⟨rfl, fun h => absurd rfl h⟩

/-- **`write` stores** only where a size of at least 4 was found. -/
theorem cmdWrite_ok {v : Nat} (h : cmdWrite a v s = .ok true s') (ha : a < 2 ^ 32) :
    v ≤ 0x7FFFFFFF ∧ s' = s.setData (store32 s.mem.data a v) ∧ ∃ z, 4 ≤ z ∧ Sized s a z := by
  unfold cmdWrite at h
  split at h
  · cases h
  rename_i hval
  split at h
  · cases h
  obtain ⟨⟨type, z⟩, t, hsize, hrest⟩ := bind_eq_ok.mp h
  obtain ⟨rfl, hz⟩ := allocSize_ok hsize ha
  dsimp only at hrest
  split at hrest
  · rename_i hpos
    split at hrest
    · cases hrest
    · rename_i hfour
      rw [bind_of_ok (st_flat ha _ _)] at hrest
      cases hrest
      exact ⟨by omega, rfl, z, by omega, hz (by omega)⟩
  · cases hrest

theorem cmdWrite_skip {v : Nat} (h : cmdWrite a v s = .ok false s') (ha : a < 2 ^ 32) : s' = s := by
  unfold cmdWrite at h
  split at h
  · cases h
    rfl
  split at h
  · cases h
  obtain ⟨⟨type, z⟩, t, hsize, hrest⟩ := bind_eq_ok.mp h
  obtain ⟨rfl, hz⟩ := allocSize_ok hsize ha
  dsimp only at hrest
  split at hrest
  · split at hrest
    · cases hrest
    · rw [bind_of_ok (st_flat ha _ _)] at hrest
      cases hrest
  · cases hrest
    rfl

/-- **`read` loads** only where a size of at least 4 was found. -/
theorem cmdRead_ok {w : Nat} (h : cmdRead a s = .ok (some w) s') (ha : a < 2 ^ 32) :
    ∃ z, 4 ≤ z ∧ Sized s a z := by
  unfold cmdRead at h
  obtain ⟨⟨type, z⟩, t, hsize, hrest⟩ := bind_eq_ok.mp h
  obtain ⟨rfl, hz⟩ := allocSize_ok hsize ha
  dsimp only at hrest
  split at hrest
  · split at hrest
    · cases hrest
    · exact ⟨z, by omega, hz (by omega)⟩
  · cases hrest

end Size

end Kfs
