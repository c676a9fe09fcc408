import Kfs.Paging

/-!
# The kernel heap (`kheap.c`)

A block is a 16-byte header followed by its payload. The header's words are
`size` (`+0`), `free` (`+4`), `magic` (`+8`) and `next` (`+12`); `free_list`
links every block of the heap, allocated or not, in address order.

The two `while` loops run under `iterate` with a bound on their rounds that no
list of blocks can reach.
-/

namespace Kfs

open Kfs.Lib

/-- `sizeof(block_header_t)`. -/
@[simp] def headerSize : Nat := 16

@[simp] def magicAllocated : Nat := 0xDEADBEEF
@[simp] def magicFreed : Nat := 0xFEEED000

@[simp] def kheapSize : Nat := kheapEnd - kheapStart + 1

/-- The bound on the rounds of a loop over a list in memory. -/
@[irreducible] def maxRounds : Nat := 2 ^ 32

theorem maxRounds_eq : maxRounds = 2 ^ 32 := by
  unfold maxRounds
  rfl

variable {M : Type}

def setHeapUsed (f : Nat → Nat) : K M Unit :=
  modify fun s => { s with kheap := { s.kheap with heapUsed := f s.kheap.heapUsed } }

def kheapUsedBytes : K M Nat := do return (← get).kheap.heapUsed

def kheapTotalBytes : K M Nat := do return (← get).kheap.heapSize

def kbrk (newBrk : Nat) : K M Nat := do
  let h := (← get).kheap
  if newBrk = 0 then
    return add32 h.heapBase h.heapUsed
  let heapEnd := add32 h.heapBase h.heapSize
  if newBrk < h.heapBase || newBrk > heapEnd then
    return 0xFFFFFFFF
  setHeapUsed fun _ => sub32 newBrk h.heapBase
  return newBrk

variable [Bus M]

/-- The loop of `kheap_init` that backs the heap with frames. -/
def kheapMap (img : Image) : K M Unit :=
  forUp (fun i => do
    let phys ← pmmAllocPage
    if phys = 0 then
      kpanicFatal "kheap_init: failed to allocate physical page %d\n" [i]
    let v := add32 kheapStart (i * pageSize)
    if (← vmmMapPage img v phys pageWrite) ≠ 0 then
      kpanicFatal "kheap_init: failed to map page at %x\n" [v]) 0 (kheapSize / pageSize)

def kheapInit (img : Image) : K M Unit := do
  modify fun s => { s with kheap := ⟨kheapStart, kheapSize, 0, 0⟩ }
  kheapMap img
  modify fun s => { s with kheap := { s.kheap with freeList := s.kheap.heapBase } }
  let freeList := (← get).kheap.freeList
  st freeList (kheapSize - headerSize)
  st (freeList + 4) 1
  st (freeList + 12) 0

def splitBlock (blk size : Nat) : K M Unit := do
  let blkSize ← ld blk
  if blkSize ≥ add32 (add32 size headerSize) 16 then
    let n := add32 (add32 blk headerSize) size
    st n (sub32 (sub32 blkSize size) headerSize)
    st (n + 4) 1
    let next ← ld (blk + 12)
    st (n + 12) next
    st blk size
    st (blk + 12) n

/-- `size` rounded up to a multiple of 8. -/
def round8 (size : Nat) : Nat :=
  if size &&& 7 ≠ 0 then add32 size 7 &&& 0xFFFFFFF8 else size

/-- `cur->free && cur->size >= size`. -/
def fits (cur size : Nat) : K M Bool :=
  andThen (do return (← ld (cur + 4)) ≠ 0) (do return (← ld cur) ≥ size)

/-- One round of `kmalloc`'s search. -/
def kmallocStep (size cur : Nat) : K M (Nat ⊕ Nat) := do
  if cur = 0 then
    kpanicFatal "kmalloc: out of memory! Requested %d bytes, heap full\n" [size]
  if ← fits cur size then
    splitBlock cur size
    st (cur + 4) 0
    st (cur + 8) magicAllocated
    setHeapUsed fun used => add32 used (add32 size headerSize)
    return .inr (add32 cur headerSize)
  let next ← ld (cur + 12)
  return .inl next

def kmalloc (size : Nat) : K M Nat := do
  if size = 0 then return 0
  let size := round8 size
  iterate .outOfFuel (kmallocStep size) maxRounds (← get).kheap.freeList

/-- One round of `kfree`'s merging loop. -/
def mergeStep (cur : Nat) : K M (Nat ⊕ Unit) := do
  if cur = 0 then return .inr ()
  let next ← ld (cur + 12)
  if next = 0 then return .inr ()
  let size ← ld cur
  let endCur := add32 (add32 cur headerSize) size
  let bothFree ← andThen (do return (← ld (cur + 4)) ≠ 0) (do return (← ld (next + 4)) ≠ 0)
  if bothFree && endCur = next then
    let nextSize ← ld next
    st cur (add32 size (add32 headerSize nextSize))
    let nextNext ← ld (next + 12)
    st (cur + 12) nextNext
    return .inl cur
  else
    return .inl next

def kfree (ptr : Nat) : K M Unit := do
  if ptr = 0 then return
  let blk := sub32 ptr headerSize
  let magic ← ld (blk + 8)
  if magic = magicFreed then
    kpanicFatal "kfree: double free detected at %p\n" [ptr]
  if magic ≠ magicAllocated then
    kpanicFatal "kfree: invalid memory block at %x (magic: %x)\n" [ptr, magic]
  st (blk + 4) 1
  st (blk + 8) magicFreed
  let size ← ld blk
  setHeapUsed fun used => sub32 used (add32 size headerSize)
  iterate .outOfFuel mergeStep maxRounds (← get).kheap.freeList

/-- The walk of the list ends in `return 1` whether or not it meets `blk`. -/
def isValidKheapBlock (blk : Nat) : K M Bool := do
  let h := (← get).kheap
  if h.heapBase = 0 || blk < h.heapBase || blk ≥ add32 h.heapBase h.heapSize then return false
  if blk &&& 7 ≠ 0 then return false
  iterate .outOfFuel (fun cur => do
    if cur = 0 then return .inr true
    if cur = blk then return .inr true
    return .inl (← ld (cur + 12))) maxRounds h.freeList

def ksize (ptr : Nat) : K M Nat := do
  if ptr = 0 then return 0
  let h := (← get).kheap
  if h.heapBase = 0 || ptr < h.heapBase || ptr ≥ add32 h.heapBase h.heapSize then return 0
  let blk := sub32 ptr headerSize
  if (← ld (blk + 8)) ≠ magicAllocated then return 0
  if !(← isValidKheapBlock blk) then return 0
  ld blk

end Kfs
