import Kfs.Vmem

/-!
# Start-up and the page test (`memory.c`, `shell.c`)

`memory_init` runs the three initialisations in order and switches paging on in
between. `cmd_page_ops` is the shell command `pageops`: it takes a frame, maps
it at `0x10000000`, writes and reads it there, unmaps it and gives it back.
-/

namespace Kfs

open Kfs.Lib

variable {M : Type} [Bus M] (img : Image)

def memoryInit (memBytes : Nat) : K M Unit := do
  pmmInit memBytes
  pagingInit img
  pagingEnable
  kheapInit img

/-- What `pageops` reports: whether the write read back, the mapping, and whether
it was gone after the unmap. -/
structure PageOps where
  rw : Bool
  got : Nat
  unmapped : Bool

/-- `none` where the command gives up early. -/
def cmdPageOps : K M (Option PageOps) := do
  let phys ← pmmAllocPage
  if phys = 0 then return none
  let virt := 0x10000000
  if (← vmmMapPage img virt phys pageWrite) ≠ 0 then
    pmmFreePage phys
    return none
  st virt 0x12345678
  let rw := decide ((← ld virt) = 0x12345678)
  let got ← vmmGetMapping img virt
  vmmUnmapPage img virt
  let after ← vmmGetMapping img virt
  pmmFreePage phys
  return some ⟨rw, got, decide (after = 0)⟩

end Kfs
