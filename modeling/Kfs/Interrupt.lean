import Kfs.Keyboard

/-!
# Interrupts (`keyboard.c`, `interrupt.s`)

`interrupt_init` fills the interrupt descriptor table, gives it to the processor and
sets up the two interrupt controllers. A gate holds its handler's address in two halves.

`Pic` is the 8259 as the source uses it: what a write to its ports does, and which
requests it passes on. A request that is passed on stays in service until the handler
says that it has ended, and holds up those that rank no higher.
-/

namespace Kfs

open Kfs.Lib

/-! ## The interrupt descriptor table -/

/-- `struct idt_entry`. -/
structure IdtEntry where
  baseLo : BitVec 16
  sel : BitVec 16
  always0 : BitVec 8
  flags : BitVec 8
  baseHi : BitVec 16

/-- `struct idt_ptr`. -/
structure IdtPtr where
  limit : BitVec 16
  base : BitVec 32

/-- The table and the processor's interrupt state: what `lidt` loaded, and whether
interrupts are let in. -/
structure Interrupts where
  idt : Vector IdtEntry 256
  idtp : IdtPtr
  idtr : IdtPtr
  enabled : Bool

/-- Where the linker puts the table and the two handlers. -/
structure Linkage where
  idt : BitVec 32
  keyboardHandlerAsm : BitVec 32
  pageFaultHandlerAsm : BitVec 32

abbrev Setting (α : Type) := EStateM Trap Interrupts α

def irq0 : BitVec 8 := 32
def irq8 : BitVec 8 := 40

def gateOf (base : BitVec 32) (sel : BitVec 16) (flags : BitVec 8) : IdtEntry where
  baseLo := (base &&& 0xFFFF).setWidth 16
  sel := sel
  always0 := 0
  flags := flags
  baseHi := ((base >>> 16) &&& 0xFFFF).setWidth 16

def idtSetGate (num : BitVec 8) (base : BitVec 32) (sel : BitVec 16) (flags : BitVec 8) :
    Setting Unit :=
  modify fun t => { t with idt := t.idt.set num.toNat (gateOf base sel flags) num.isLt }

def idtLoad : Setting Unit := modify fun t => { t with idtr := t.idtp }

def idtInit (link : Linkage) : Setting Unit := do
  modify fun t => { t with idtp := ⟨8 * 256 - 1, link.idt⟩ }
  forUp (fun i => idtSetGate (.ofNat 8 i) 0 0 0) 0 256
  idtSetGate (.ofNat 8 irq1) link.keyboardHandlerAsm 0x08 0x8E
  idtSetGate 14 link.pageFaultHandlerAsm 0x08 0x8E
  idtLoad

/-- The handler of a gate that is present and an interrupt gate. -/
def IdtEntry.handler (e : IdtEntry) : Option (BitVec 32) :=
  if e.flags &&& 0x80 ≠ 0 ∧ e.flags &&& 0x0F = 0x0E then some (e.baseHi ++ e.baseLo) else none

/-- Where the processor goes for vector `n`. -/
def Interrupts.vector (t : Interrupts) (link : Linkage) (n : Fin 256) : Option (BitVec 32) :=
  if t.idtr.base = link.idt ∧ 8 * n.val + 7 ≤ t.idtr.limit.toNat then t.idt[n].handler else none

/-! ### Gates -/

/-- **The two halves** of an address make the address. -/
theorem gateOf_base (base : BitVec 32) (sel : BitVec 16) (flags : BitVec 8) :
    (gateOf base sel flags).baseHi ++ (gateOf base sel flags).baseLo = base := by
  have hlo : (gateOf base sel flags).baseLo.toNat = base.toNat % 2 ^ 16 := by
    show ((base &&& 0xFFFF).setWidth 16).toNat = _
    rw [BitVec.toNat_setWidth, BitVec.toNat_and]
    show (base.toNat &&& 2 ^ 16 - 1) % 2 ^ 16 = _
    rw [Nat.and_two_pow_sub_one_eq_mod, Nat.mod_mod]
  have hhi : (gateOf base sel flags).baseHi.toNat = base.toNat / 2 ^ 16 := by
    have := base.isLt
    show ((base >>> 16 &&& 0xFFFF).setWidth 16).toNat = _
    rw [BitVec.toNat_setWidth, BitVec.toNat_and, BitVec.toNat_ushiftRight,
      Nat.shiftRight_eq_div_pow]
    show (base.toNat / 2 ^ 16 &&& 2 ^ 16 - 1) % 2 ^ 16 = _
    rw [Nat.and_two_pow_sub_one_eq_mod, Nat.mod_mod]
    omega
  apply BitVec.eq_of_toNat_eq
  rw [BitVec.toNat_append, hlo, hhi, ← Nat.shiftLeft_add_eq_or_of_lt (Nat.mod_lt _ (by decide)),
    Nat.shiftLeft_eq]
  omega

/-- A gate with the flags `0x8E` leads to its handler. -/
theorem gateOf_handler (base : BitVec 32) (sel : BitVec 16) :
    (gateOf base sel 0x8E).handler = some base := by
  have hflags : (0x8E : BitVec 8) &&& 0x80 ≠ 0 ∧ (0x8E : BitVec 8) &&& 0x0F = 0x0E := by decide
  unfold IdtEntry.handler
  rw [show (gateOf base sel 0x8E).flags = 0x8E from rfl, if_pos hflags, gateOf_base]

theorem gateOf_absent (base : BitVec 32) (sel : BitVec 16) :
    (gateOf base sel 0).handler = none := by
  have hflags : ¬ ((0 : BitVec 8) &&& 0x80 ≠ 0 ∧ (0 : BitVec 8) &&& 0x0F = 0x0E) := by decide
  unfold IdtEntry.handler
  rw [show (gateOf base sel 0).flags = 0 from rfl, if_neg hflags]

theorem idtSetGate_apply (num : BitVec 8) (base : BitVec 32) (sel : BitVec 16) (flags : BitVec 8)
    (t : Interrupts) : idtSetGate num base sel flags t =
      .ok () { t with idt := t.idt.set num.toNat (gateOf base sel flags) num.isLt } := rfl

/-- **The table as `interrupt_init` leaves it**: two gates. -/
structure IdtReady (link : Linkage) (t : Interrupts) : Prop where
  idtr : t.idtr = ⟨8 * 256 - 1, link.idt⟩
  gate : ∀ n : Fin 256, t.idt[n] = if n.val = 14 then gateOf link.pageFaultHandlerAsm 0x08 0x8E
    else if n.val = irq1 then gateOf link.keyboardHandlerAsm 0x08 0x8E else gateOf 0 0 0

theorem idtInit_ok (link : Linkage) (t : Interrupts) :
    ∃ t', idtInit link t = .ok () t' ∧ IdtReady link t' := by
  have hloop := forUp_total (f := fun i => idtSetGate (.ofNat 8 i) 0 0 0)
    (fun i t' => t'.idtp = ⟨8 * 256 - 1, link.idt⟩ ∧ ∀ n : Fin 256, n.val < i →
      t'.idt[n] = gateOf 0 0 0)
    (l := 0) (n := 256) (s := { t with idtp := ⟨8 * 256 - 1, link.idt⟩ })
    ⟨rfl, fun n hn => by omega⟩ ?_
  · obtain ⟨t₁, hr, hidtp, hclear⟩ := hloop
    refine ⟨_, (modify_bind_apply _ _ _).trans ((bind_of_ok hr).trans rfl), hidtp, fun n => ?_⟩
    show ((t₁.idt.set 33 _ (by decide)).set 14 _ (by decide))[n.val] = _
    rw [Vector.getElem_set, Vector.getElem_set, show t₁.idt[n.val] =
      gateOf 0 0 0 from hclear n (by omega)]
    simp only [eq_comm (a := n.val), irq1]
  · rintro i t' - hi ⟨hidtp, hclear⟩
    refine ⟨_, idtSetGate_apply _ _ _ _ _, hidtp, fun n hn => ?_⟩
    have hi' : (BitVec.ofNat 8 i).toNat = i := by
      rw [BitVec.toNat_ofNat]
      exact Nat.mod_eq_of_lt (by omega)
    show (t'.idt.set (BitVec.ofNat 8 i).toNat (gateOf 0 0 0) (BitVec.isLt _))[n.val] = _
    rw [Vector.getElem_set]
    split
    · rfl
    · next hne => exact hclear n (by omega)

/-- **Where the processor goes**: two vectors have a handler, and no other. -/
theorem IdtReady.vector {link : Linkage} {t : Interrupts} (h : IdtReady link t) (n : Fin 256) :
    t.vector link n = if n.val = 14 then some link.pageFaultHandlerAsm
      else if n.val = irq1 then some link.keyboardHandlerAsm else none := by
  have hlimit : t.idtr.base = link.idt ∧ 8 * n.val + 7 ≤ t.idtr.limit.toNat := by
    rw [h.idtr]
    refine ⟨rfl, ?_⟩
    show 8 * n.val + 7 ≤ 2047
    omega
  unfold Interrupts.vector
  rw [if_pos hlimit, h.gate]
  split
  · exact gateOf_handler _ _
  split
  · exact gateOf_handler _ _
  · exact gateOf_absent _ _

/-! ## The interrupt controllers -/

def pic1Data : Nat := 0x21
def pic2Data : Nat := 0xA1

def icw1Icw4 : BitVec 8 := 0x01
def icw1Init : BitVec 8 := 0x10
def icw4Mode8086 : BitVec 8 := 0x01

def picInit : Kb Unit := do
  outb pic1Command (icw1Init ||| icw1Icw4)
  outb pic2Command (icw1Init ||| icw1Icw4)
  outb pic1Data irq0
  outb pic2Data irq8
  outb pic1Data 4
  outb pic2Data 2
  outb pic1Data icw4Mode8086
  outb pic2Data icw4Mode8086
  outb pic1Data 0xFD
  outb pic2Data 0xFF

/-- An 8259: which initialisation word comes next (`0`: none), and what it was told. -/
structure Pic where
  next : Fin 4
  single : Bool
  needsIcw4 : Bool
  base : BitVec 8
  cascade : BitVec 8
  mask : BitVec 8
  inService : BitVec 8
  deriving DecidableEq

namespace Pic

/-- A write to the command port: an initialisation starts, or the request of the highest
rank is no longer in service. -/
def command (p : Pic) (v : BitVec 8) : Pic :=
  if v &&& 0x10 ≠ 0 then
    { p with next := 1, single := v &&& 2 ≠ 0, needsIcw4 := v &&& 1 ≠ 0, mask := 0, inService := 0 }
  else if v &&& 0x18 = 0 ∧ v &&& 0xE0 = 0x20
    then { p with inService := p.inService &&& (p.inService - 1) }
  else p

/-- A write to the data port: the next initialisation word, or the mask. -/
def data (p : Pic) (v : BitVec 8) : Pic :=
  let last := if p.needsIcw4 then 3 else 0
  if p.next = 1 then { p with base := v &&& 0xF8, next := if p.single then last else 2 }
  else if p.next = 2 then { p with cascade := v, next := last }
  else if p.next = 3 then { p with next := 0 }
  else { p with mask := v }

/-- Request `n` is passed on: it is not masked, and nothing of its rank or above is in service. -/
def passes (p : Pic) (n : Nat) : Bool :=
  p.next = 0 && !p.mask.getLsbD n && (List.range (n + 1)).all fun i => !p.inService.getLsbD i

def serve (p : Pic) (n : Nat) : Pic := { p with inService := p.inService ||| 1 <<< n }

end Pic

/-- The two controllers of a PC; the second hangs on request 2 of the first. -/
structure Pics where
  master : Pic
  slave : Pic
  deriving DecidableEq

namespace Pics

def outb (p : Pics) (w : Nat × BitVec 8) : Pics :=
  if w.1 = pic1Command then { p with master := p.master.command w.2 }
  else if w.1 = pic1Data then { p with master := p.master.data w.2 }
  else if w.1 = pic2Command then { p with slave := p.slave.command w.2 }
  else if w.1 = pic2Data then { p with slave := p.slave.data w.2 }
  else p

/-- The writes of a log, the latest first. -/
def outs (p : Pics) (ports : List (Nat × BitVec 8)) : Pics := ports.foldr (fun w p => p.outb w) p

/-- Request `n` comes in: the vector, if it is passed on. -/
def raise (p : Pics) (n : Fin 16) : Option (BitVec 8 × Pics) :=
  if n.val < 8 then
    if p.master.passes n
      then some (p.master.base ||| .ofNat 8 n, { p with master := p.master.serve n }) else none
  else if p.slave.passes (n - 8) && p.master.passes 2 then
    some (p.slave.base ||| .ofNat 8 (n - 8), ⟨p.master.serve 2, p.slave.serve (n - 8)⟩)
  else none

end Pics

/-- The controllers as `pic_init` leaves them: only the keyboard is let through. -/
def picsReady : Pics where
  master := ⟨0, false, true, irq0, 4, 0xFD, 0⟩
  slave := ⟨0, false, true, irq8, 2, 0xFF, 0⟩

theorem Pics.outs_append (p : Pics) (ports ports' : List (Nat × BitVec 8)) :
    p.outs (ports ++ ports') = (p.outs ports').outs ports := List.foldr_append

/-- `pic_init`, whatever the controllers were doing. -/
theorem picInit_ok (k : Keyboard) :
    ∃ ports, picInit k = .ok () { k with ports := ports ++ k.ports } ∧
    ∀ p : Pics, p.outs ports = picsReady := by
  refine ⟨[(pic2Data, 0xFF), (pic1Data, 0xFD), (pic2Data, icw4Mode8086),
    (pic1Data, icw4Mode8086), (pic2Data, 2),
    (pic1Data, 4), (pic2Data, irq8), (pic1Data, irq0), (pic2Command, icw1Init ||| icw1Icw4),
    (pic1Command, icw1Init ||| icw1Icw4)], rfl, fun p => rfl⟩

/-- Only the keyboard's request is passed on, as vector 33. -/
theorem raise_ready : ∀ n : Fin 16, picsReady.raise n =
    if n = 1 then some (.ofNat 8 irq1, { picsReady with master := picsReady.master.serve 1 })
      else none := by
  decide

end Kfs
