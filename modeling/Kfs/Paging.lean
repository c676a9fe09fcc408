import Kfs.Pmm

/-!
# Page tables (`paging.c`)

The page directory and the first three page tables are static arrays at the
addresses of `Image`; further tables are frames of the allocator. A page
directory entry holds the address of its table, and `virt_to_pte` uses that
address as a pointer. A null pointer is `0`, as in the source.
-/

namespace Kfs

open Kfs.Lib

variable {M : Type} [Bus M] (img : Image)

def enableWp : K M Unit := do
  let cr0 ← readCr0
  writeCr0 (cr0 ||| 1 <<< 16)

/-- `page_tables[t][i]` for the identity mapping of the first 12 MB. -/
def identityEntry (t i : Nat) : Nat :=
  let phys := (t * 1024 + i) * pageSize
  (phys &&& 0xFFFFF000) ||| pagePresent ||| pageWrite

def pagingInit : K M Unit := do
  forUp (fun i => stTable (img.pageDirectory + 4 * i) 0) 0 1024
  forUp (fun t => do
    forUp (fun i => stTable (img.pageTables + 4096 * t + 4 * i) (identityEntry t i)) 0 1024
    stTable (img.pageDirectory + 4 * t)
      ((img.pageTables + 4096 * t) ||| pagePresent ||| pageWrite)) 0 3
  loadCr3 img.pageDirectory
  enableWp

def pagingEnable : K M Unit := do
  let cr0 ← readCr0
  writeCr0 (cr0 ||| 0x80000000)

/-- A fresh table for directory slot `pdIdx`, the branch of `virt_to_pte` that
allocates one. -/
def newPageTable (virt pdIdx : Nat) : K M Unit := do
  let newTable ← pmmAllocPage
  forUp (fun i => stTable (newTable + 4 * i) 0) 0 1024
  stTable (img.pageDirectory + 4 * pdIdx)
    (newTable ||| pagePresent ||| pageWrite |||
      (if virt ≥ userZoneStart then pageUser else 0))

def virtToPte (virt : Nat) (create : Bool) : K M Nat := do
  let pdIdx := (virt >>> 22) &&& 0x3FF
  let ptIdx := (virt >>> 12) &&& 0x3FF
  let mut pde ← ldTable (img.pageDirectory + 4 * pdIdx)
  if pde &&& pagePresent = 0 then
    if !create then return 0
    newPageTable img virt pdIdx
    pde ← ldTable (img.pageDirectory + 4 * pdIdx)
  let pt := pde &&& 0xFFFFF000
  return pt + 4 * ptIdx

def vmmMapPage (virt phys flags : Nat) : K M Int := do
  let pte ← virtToPte img virt true
  if pte = 0 then return -1
  stTable pte ((phys &&& 0xFFFFF000) ||| (flags &&& 0xFFF) ||| pagePresent)
  return 0

def vmmUnmapPage (virt : Nat) : K M Unit := do
  let pte ← virtToPte img virt false
  if pte = 0 then return
  stTable pte 0

def vmmGetMapping (virt : Nat) : K M Nat := do
  let pte ← virtToPte img virt false
  if pte = 0 then return 0
  ldTable pte

/-! ## What page-table code leaves alone -/

/-- `s'` differs from `s` in the frame allocator and the page-table store only. -/
def OnlyTables (s s' : State Flat) : Prop :=
  ∃ p t, s' = { s with pmm := p, mem := { s.mem with table := t } }

theorem onlyTables_frame : Frame OnlyTables where
  refl s := ⟨s.pmm, s.mem.table, rfl⟩
  trans := by
    rintro s _ _ ⟨p, t, rfl⟩ ⟨p', t', rfl⟩
    exact ⟨p', t', rfl⟩

theorem onlyTables_modify {f : State Flat → Pmm} :
    Keeps OnlyTables (modify fun s => { s with pmm := f s } : K Flat Unit) :=
  .modify fun s => ⟨f s, s.mem.table, rfl⟩

theorem stTable_onlyTables (a v : Nat) : Keeps OnlyTables (stTable a v : K Flat Unit) := by
  rintro s u s' h
  rw [stTable_flat] at h
  cases h
  exact ⟨s.pmm, _, rfl⟩

theorem ldTable_onlyTables (a : Nat) : Keeps OnlyTables (ldTable a : K Flat Nat) := by
  rintro s u s' h
  rw [ldTable_flat] at h
  cases h
  exact onlyTables_frame.refl s

theorem bitmapGet_onlyTables (i : Nat) : Keeps OnlyTables (bitmapGet i : K Flat (BitVec 32)) := by
  refine .bind onlyTables_frame (.get onlyTables_frame) fun s => ?_
  split
  · exact .pure onlyTables_frame _
  · exact .throw _

theorem setBit_onlyTables (i : Nat) : Keeps OnlyTables (setBit i : K Flat Unit) := by
  refine .bind onlyTables_frame (bitmapGet_onlyTables _) fun w => ?_
  unfold bitmapSet
  split
  · exact onlyTables_modify
  · exact .throw _

theorem pmmAllocPage_onlyTables : Keeps OnlyTables (pmmAllocPage : K Flat Nat) := by
  refine .bind onlyTables_frame (.get onlyTables_frame) fun s => ?_
  refine .bind onlyTables_frame (.findUp onlyTables_frame (fun i => ?_) _ _) fun r => ?_
  · exact .bind onlyTables_frame (.bind onlyTables_frame (bitmapGet_onlyTables _) fun w =>
      .pure onlyTables_frame _) fun b => .pure onlyTables_frame _
  · cases r with
    | none => exact .throw _
    | some i =>
      exact .bind onlyTables_frame (setBit_onlyTables i) fun _ =>
        .bind onlyTables_frame onlyTables_modify fun _ => .pure onlyTables_frame _

theorem virtToPte_onlyTables (virt : Nat) (create : Bool) :
    Keeps OnlyTables (virtToPte img virt create : K Flat Nat) := by
  refine .bind onlyTables_frame (ldTable_onlyTables _) fun pde => .ite (.ite ?_ ?_) ?_
  · exact .pure onlyTables_frame _
  · refine .bind onlyTables_frame ?_ fun _ =>
      .bind onlyTables_frame (ldTable_onlyTables _) fun _ => .pure onlyTables_frame _
    exact .bind onlyTables_frame pmmAllocPage_onlyTables fun t =>
      .bind onlyTables_frame (.forUp onlyTables_frame (fun i => stTable_onlyTables _ _) _ _)
        fun _ => stTable_onlyTables _ _
  · exact .pure onlyTables_frame _

theorem vmmMapPage_onlyTables (virt phys flags : Nat) :
    Keeps OnlyTables (vmmMapPage img virt phys flags : K Flat Int) := by
  refine .bind onlyTables_frame (virtToPte_onlyTables img virt true) fun pte => .ite ?_ ?_
  · exact .pure onlyTables_frame _
  · exact .bind onlyTables_frame (stTable_onlyTables _ _) fun _ => .pure onlyTables_frame _

end Kfs
