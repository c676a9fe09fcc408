import Kfs.KHeap

/-!
# Virtual allocations (`vmem.c`)

A block is a 20-byte header followed by its payload. The header's words are
`size` (`+0`), `capacity` (`+4`), `free` (`+8`), `magic` (`+12`) and `next`
(`+16`). `vmalloc` takes the first free block that is large enough, or maps
fresh pages at `vmem_current` and appends a block. A block that is split off
gets a `size`, `free` and `next` only. `vfree` tries to merge once, at the head
of the list, and it reads through the head's `next` even when that is null.
-/

namespace Kfs

open Kfs.Lib

/-- `sizeof(vmem_block_t)`. -/
@[simp] def vmemHeader : Nat := 20

@[simp] def vmemMagicAllocated : Nat := 0xDEADBEEF
@[simp] def vmemMagicFreed : Nat := 0xFEEED000

variable {M : Type}

def setVmem (f : Vmem → Vmem) : K M Unit := modify fun s => { s with vmem := f s.vmem }

variable [Bus M] (img : Image)

/-- How the search of `vmalloc` ends: with a pointer, or at the last block. -/
inductive VSearch where
  | found (p : Nat)
  | last (prev : Nat)

/-- `cur->free && cur->size >= size`. -/
def vmemFits (cur size : Nat) : K M Bool :=
  andThen (do return (← ld (cur + 8)) ≠ 0) (do return (← ld cur) ≥ size)

/-- The block `cur` serves `size` bytes. -/
def vmemServe (cur size : Nat) : K M Unit := do
  let curSize ← ld cur
  if curSize ≥ add32 (add32 size vmemHeader) 16 then
    let n := add32 (add32 cur vmemHeader) size
    st n (sub32 (sub32 curSize size) vmemHeader)
    st (n + 8) 1
    let next ← ld (cur + 16)
    st (n + 16) next
    st cur size
    st (cur + 16) n
  st (cur + 8) 0
  st (cur + 12) vmemMagicAllocated

/-- One round of `vmalloc`'s search, at `prev` and `cur`. -/
def vmallocStep (size : Nat) (at_ : Nat × Nat) : K M ((Nat × Nat) ⊕ VSearch) := do
  let (prev, cur) := at_
  if cur = 0 then return .inr (.last prev)
  if ← vmemFits cur size then
    vmemServe cur size
    return .inr (.found (add32 cur vmemHeader))
  let next ← ld (cur + 16)
  return .inl (cur, next)

/-- The loop of `vmalloc` that maps the pages of `[from_, to_)`; its address stays
below `KVMEM_END`. -/
def vmallocMap (from_ to_ : Nat) : K M Unit :=
  forUp (fun i => do
    let phys ← pmmAllocPage
    if phys = 0 then
      kpanicFatal "vmalloc: failed to allocate physical page\n" []
    if (← vmmMapPage img (from_ + i * pageSize) phys pageWrite) ≠ 0 then
      kpanicFatal "vmalloc: failed to map page\n" []) 0 ((to_ - from_ + (pageSize - 1)) / pageSize)

/-- The block `vmalloc` makes of freshly mapped pages. -/
def vmemAppend (size prev neededPages newVmemEnd : Nat) : K M Nat := do
  let newBlock := (← get).vmem.vmemCurrent
  st newBlock size
  st (newBlock + 4) (sub32 (neededPages * pageSize % 2 ^ 32) vmemHeader)
  st (newBlock + 8) 0
  st (newBlock + 12) vmemMagicAllocated
  st (newBlock + 16) 0
  if prev ≠ 0 then
    st (prev + 16) newBlock
  else
    setVmem fun v => { v with vmemList := newBlock }
  setVmem fun v => { v with vmemCurrent := newVmemEnd }
  setVmem fun v => { v with vmemSize := add32 v.vmemSize (neededPages * pageSize % 2 ^ 32) }
  return add32 newBlock vmemHeader

/-- `(size + sizeof(vmem_block_t) + PAGE_SIZE - 1) / PAGE_SIZE`. -/
def vmemPages (size : Nat) : Nat :=
  sub32 (add32 (add32 size vmemHeader) pageSize) 1 / pageSize

def vmallocExpand (size prev : Nat) : K M Nat := do
  let vmemCurrent := (← get).vmem.vmemCurrent
  let neededPages := vmemPages size
  let newVmemEnd := add32 vmemCurrent (neededPages * pageSize % 2 ^ 32)
  if newVmemEnd > kvmemEnd then
    kpanicFatal "vmalloc: would exceed vmalloc region\n" []
  vmallocMap img vmemCurrent newVmemEnd
  vmemAppend size prev neededPages newVmemEnd

def vmalloc (size : Nat) : K M Nat := do
  if size = 0 then return 0
  let size := round8 size
  match ← iterate .outOfFuel (vmallocStep size) maxRounds (0, (← get).vmem.vmemList) with
  | .found p => return p
  | .last prev => vmallocExpand img size prev

/-- The merge at the end of `vfree`. -/
def vfreeMerge : K M Unit := do
  let cur := (← get).vmem.vmemList
  let capacity ← ld (cur + 4)
  let endCur := add32 (add32 cur vmemHeader) capacity
  let next ← ld (cur + 16)
  let bothFree ← andThen (do return (← ld (cur + 8)) ≠ 0) (do return (← ld (next + 8)) ≠ 0)
  if bothFree && endCur = next then
    let nextCapacity ← ld (next + 4)
    st (cur + 4) (add32 capacity (add32 vmemHeader nextCapacity))
    let nextNext ← ld (next + 16)
    st (cur + 16) nextNext

def vfree (ptr : Nat) : K M Unit := do
  if ptr = 0 then return
  let blk := sub32 ptr vmemHeader
  let magic ← ld (blk + 12)
  if magic = vmemMagicFreed then
    kpanicFatal "vfree: double free detected at %x\n" [ptr]
  if magic ≠ vmemMagicAllocated then
    kpanicFatal "vfree: invalid memory block at %x (magic: %x)\n" [ptr, magic]
  st (blk + 8) 1
  st (blk + 12) vmemMagicFreed
  vfreeMerge

def isValidAllocatedBlock (blk : Nat) : K M Bool := do
  let v := (← get).vmem
  if blk < kvmemStart || blk ≥ v.vmemCurrent then return false
  if blk &&& 7 ≠ 0 then return false
  iterate .outOfFuel (fun cur => do
    if cur = 0 then return .inr false
    if cur = blk then return .inr true
    return .inl (← ld (cur + 16))) maxRounds v.vmemList

def vsize (ptr : Nat) : K M Nat := do
  if ptr = 0 then return 0
  let v := (← get).vmem
  if ptr < kvmemStart || ptr ≥ v.vmemCurrent then return 0
  let blk := sub32 ptr vmemHeader
  if (← ld (blk + 12)) ≠ vmemMagicAllocated then return 0
  if !(← isValidAllocatedBlock blk) then return 0
  ld blk

/-- One round of `vbrk`'s loop. -/
def vbrkStep (newAddr : Nat) (_ : Unit) : K M (Unit ⊕ Unit) := do
  let va := (← get).vmem.vmemCurrent
  if va < newAddr then
    let phys ← pmmAllocPage
    if (← vmmMapPage img va phys pageWrite) ≠ 0 then
      kpanicFatal "vbrk: failed to map page\n" []
    setVmem fun v => { v with vmemCurrent := add32 v.vmemCurrent pageSize }
    setVmem fun v => { v with vmemSize := add32 v.vmemSize pageSize }
    return .inl ()
  return .inr ()

def vbrk (newBrk : Nat) : K M Nat := do
  if newBrk = 0 then return (← get).vmem.vmemCurrent
  if newBrk < kvmemStart || newBrk < (← get).vmem.vmemCurrent then return 0xFFFFFFFF
  iterate .outOfFuel (vbrkStep img newBrk) maxRounds ()
  return (← get).vmem.vmemCurrent

end Kfs
