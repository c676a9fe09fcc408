import Kfs.VmemReuse

/-!
# What `vfree` touches

To say which memory a function touches, it runs behind a fence: `Fenced` is flat
memory of which only the headers of given blocks may be accessed, and any other
access is refused. A run behind the fence that returns touched those headers only.

`vfree` reads `cur->next->free` as soon as the head of the list is free. A list of
two blocks has a `next` to read; freeing the only block of a list reads through a
null pointer.
-/

namespace Kfs

open Kfs.Lib

/-! ## The fence -/

/-- Flat memory of which only the headers at `headers` may be accessed. -/
structure Fenced where
  flat : Flat
  headers : List Nat

/-- Byte `x` is in the header of a `vmem_block_t` at one of `as`. -/
def InHeaders (as : List Nat) (x : Nat) : Prop := ∃ a ∈ as, a ≤ x ∧ x < a + vmemHeader

instance (as : List Nat) (x : Nat) : Decidable (InHeaders as x) :=
  inferInstanceAs (Decidable (∃ a ∈ as, a ≤ x ∧ x < a + vmemHeader))

def Fenced.Allows (m : Fenced) (a : Nat) : Prop := ∀ i < 4, InHeaders m.headers (a + i)

instance (m : Fenced) (a : Nat) : Decidable (m.Allows a) :=
  inferInstanceAs (Decidable (∀ i < 4, InHeaders m.headers (a + i)))

instance : Bus Fenced where
  load m
    | .data a => if m.Allows a then Bus.load m.flat (.data a) else .error (.pageFault a)
    | .table a => Bus.load m.flat (.table a)
  store m
    | .data a, v =>
      if m.Allows a then (Bus.store m.flat (.data a) v).map fun f => { m with flat := f }
      else .error (.pageFault a)
    | .table a, v => (Bus.store m.flat (.table a) v).map fun f => { m with flat := f }
  readCr0 m := Bus.readCr0 m.flat
  writeCr0 m v := { m with flat := Bus.writeCr0 m.flat v }
  loadCr3 m v := { m with flat := Bus.loadCr3 m.flat v }

def fencedData : Port Fenced where
  loc := .data
  get m := m.flat.data
  set m d := { m with flat := { m.flat with data := d } }
  get_set _ _ := rfl
  set_set _ _ _ := rfl
  set_get _ := rfl

theorem fencedData_isData : fencedData.IsData := fun _ => rfl

theorem fencedData_plain (m : Fenced) : Plain fencedData m (InHeaders m.headers) := by
  intro d _ a ha
  have hin : (fencedData.set m d).Allows a := fun i hi => ha (a + i) (by omega) (by omega)
  refine ⟨if_pos hin, fun v => ?_⟩
  show (if (fencedData.set m d).Allows a then _ else _) = _
  rw [if_pos hin]
  rfl

def State.fenced (s : State Flat) (as : List Nat) : State Fenced where
  pmm := s.pmm
  kheap := s.kheap
  vmem := s.vmem
  mem := ⟨s.mem, as⟩

theorem ld_fenced_off {s : State Fenced} {a : Nat} (ha : a < 2 ^ 32)
    (hno : ¬ InHeaders s.mem.headers a) : ld a s = .error (.pageFault a) s := by
  unfold ld loadAt
  rw [Nat.mod_eq_of_lt ha]
  have hload : Bus.load s.mem (.data a) = (.error (.pageFault a) : Except Trap Nat) :=
    if_neg fun h => hno (h 0 (by decide))
  rw [hload]

/-! ## `vfree` behind the fence -/

/-- `vfree(p)` touches the headers of the blocks on the list, and nothing else: it runs behind
a fence around them, with the result it has without. -/
def TouchesListed (s : State Flat) (p : Nat) : Prop :=
  ∃ as s', Follows s.mem.data 16 s.vmem.vmemList as ∧ vfree p s = .ok () s' ∧
    vfree p (s.fenced as) = .ok () (s'.fenced as)

section Fence

variable {s : State Flat} {bs : List VBlk}

theorem inHeaders_addr {x : Nat} : InHeaders (bs.map VBlk.addr) x ↔ InVHeader bs x := by
  unfold InHeaders InVHeader
  simp only [List.mem_map, vmemHeader]
  constructor
  · rintro ⟨_, ⟨b, hb, rfl⟩, hx⟩
    exact ⟨b, hb, hx⟩
  · rintro ⟨b, hb, hx⟩
    exact ⟨b.addr, ⟨b, hb, rfl⟩, hx⟩

theorem VmemInv.fenced (h : VmemInv flatData s bs) (as : List Nat) :
    VmemInv fencedData (s.fenced as) bs := ⟨h.list, h.blocks, h.lo, h.hi, h.page⟩

theorem VmemInv.vfree_fenced {pre post : List VBlk} {b : VBlk}
    (h : VmemInv flatData s (pre ++ b :: post)) (hf : b.free = false)
    (hlen : (pre ++ b :: post).length ≠ 1) : TouchesListed s (b.addr + 20) := by
  have hW : ∀ x, InVHeader (pre ++ b :: post) x → InHeaders ((pre ++ b :: post).map VBlk.addr) x :=
    fun x => inHeaders_addr.mpr
  obtain ⟨_, rfl, hd, -⟩ := vfree_within flatData_isData h
    (flatData_plain s.mem (InHeaders ((pre ++ b :: post).map VBlk.addr))) hf hW fun hl =>
      absurd hl hlen
  obtain ⟨_, rfl, hd', -⟩ := vfree_within fencedData_isData
    (h.fenced ((pre ++ b :: post).map VBlk.addr)) (fencedData_plain _) hf hW fun hl =>
      absurd hl hlen
  exact ⟨_, _, h.follows, hd, hd'⟩

/-- The merge at a free head without a successor reads the `free` word of a null pointer. -/
theorem vfreeMerge_null_fenced {t : State Fenced} {b : VBlk} (h : VmemInv fencedData t [b])
    (hfree : b.free = true) (hfence : t.mem.headers = [b.addr]) :
    vfreeMerge t = .error (.pageFault 8) t := by
  have hbnd := h.mem List.mem_cons_self
  obtain ⟨hlist, -, hb, hnext⟩ := h.list
  have hlist : t.vmem.vmemList = b.addr := hlist
  rw [hlist] at hnext
  have hnext : load32 (fencedData.view t) (b.addr + 16) = 0 := hnext
  have hld : ∀ i, i ≤ 16 → ld (b.addr + i) t = .ok (load32 (fencedData.view t) (b.addr + i)) t :=
    fun i hi => (fencedData_plain t.mem).ld_view fencedData_isData (by omega) fun x _ _ =>
      ⟨b.addr, by rw [hfence]; exact List.mem_cons_self, by omega, by simp only [vmemHeader]; omega⟩
  have hnull : ld (0 + 8) t = .error (.pageFault 8) t := by
    refine ld_fenced_off (by omega) ?_
    rw [hfence]
    rintro ⟨a, ha, h1, -⟩
    rw [List.mem_singleton] at ha
    omega
  have htest : andThen (do return (← ld (b.addr + 8)) ≠ 0) (do return (← ld (0 + 8)) ≠ 0) t =
      .error (.pageFault 8) t := by
    unfold andThen
    have hhead : (do return (← ld (b.addr + 8)) ≠ 0 : K Fenced Bool) t = .ok true t := by
      rw [bind_of_ok (hld 8 (by omega)), hb.2.1, hfree, pure_apply]
      rfl
    rw [bind_of_ok hhead]
    exact bind_of_error hnull
  unfold vfreeMerge
  rw [get_bind_apply, hlist, bind_of_ok (hld 4 (by omega)), bind_of_ok (hld 16 (by omega)), hnext,
    bind_of_error htest]

theorem VmemInv.vfree_null {b : VBlk} (h : VmemInv flatData s [b]) (hf : b.free = false) :
    ∃ t, vfree (b.addr + 20) (s.fenced [b.addr]) = .error (.pageFault 8) t := by
  have hbnd := h.mem List.mem_cons_self
  have h' : VmemInv fencedData (s.fenced [b.addr]) ([] ++ b :: []) := h.fenced [b.addr]
  have hW : ∀ x, b.addr ≤ x → x < b.addr + 20 → InHeaders [b.addr] x :=
    fun x h1 h2 => ⟨b.addr, List.mem_cons_self, h1, h2⟩
  rw [vfree_eq fencedData_isData (fencedData_plain _) ((h'.list.holds b (by simp)).2.2.1 hf)
    (by omega) hW]
  exact ⟨_, vfreeMerge_null_fenced h'.mark rfl rfl⟩

theorem VmemInv.not_touches {b : VBlk} (h : VmemInv flatData s [b]) (hf : b.free = false) :
    ¬ TouchesListed s (b.addr + 20) := by
  rintro ⟨as, s', hfol, -, hv⟩
  obtain rfl := hfol.unique h.follows
  obtain ⟨t, hnull⟩ := h.vfree_null hf
  cases hv.symm.trans hnull

theorem VmemInv.next_iff (h : VmemInv flatData s bs) (hne : bs ≠ []) :
    load32 s.mem.data (s.vmem.vmemList + 16) ≠ 0 ↔ bs.length ≠ 1 := by
  match bs, h.list with
  | [], _ => exact absurd rfl hne
  | [b], ⟨_, _, _, hnext⟩ =>
    have hnext : load32 s.mem.data (s.vmem.vmemList + 16) = 0 := hnext
    simp [hnext]
  | b :: c :: cs, ⟨_, _, _, _, hnull, _⟩ =>
    exact ⟨fun _ => by simp, fun _ => hnull⟩

end Fence

variable {img : Image}

/-- **When `vfree` touches real blocks only.** In every reachable state, for every live
pointer, `vfree` reads and writes headers of listed blocks and nothing else if and only if
the head of the list has a successor. -/
theorem vfree_touches_listed {x : VmemSys Flat} (h : Reach (VmemStart img) (VmemStep img) x)
    {p : Nat} (hp : p ∈ x.live) :
    TouchesListed x.st p ↔ load32 x.st.mem.data (x.st.vmem.vmemList + 16) ≠ 0 := by
  obtain ⟨bs, hok⟩ := vmemReach_ok h
  obtain ⟨b, hb, hf, rfl⟩ := hok.live p hp
  rw [hok.list.next_iff (List.ne_nil_of_mem hb)]
  constructor
  · intro htouch hlen
    obtain ⟨c, rfl⟩ := List.length_eq_one_iff.mp hlen
    rw [List.mem_singleton] at hb
    subst hb
    exact hok.list.not_touches hf htouch
  · intro hlen
    obtain ⟨pre, post, rfl⟩ := List.append_of_mem hb
    exact hok.list.vfree_fenced hf hlen

/-- The second of two blocks is freed within the fence. -/
theorem vfree_touches_listed_second : ∃ x : VmemSys Flat,
    Reach (VmemStart Image.readme) (VmemStep Image.readme) x ∧ 0x301014 ∈ x.live ∧
    TouchesListed x.st 0x301014 := by
  obtain ⟨x, hx, hlive, hok⟩ := vmalloc_two_free_first
  exact ⟨x, hx, hlive, (vfree_touches_listed hx hlive).mpr
    ((hok.list.next_iff (by simp)).mpr (by simp))⟩

/-- Freeing the first block there is reads the word at address 8. -/
theorem vfree_reads_null : ∃ x : VmemSys Flat,
    Reach (VmemStart Image.readme) (VmemStep Image.readme) x ∧ 0x300014 ∈ x.live ∧
    Follows x.st.mem.data 16 x.st.vmem.vmemList [0x300000] ∧
    (∃ t, vfree 0x300014 (x.st.fenced [0x300000]) = .error (.pageFault 8) t) ∧
    ¬ TouchesListed x.st 0x300014 := by
  obtain ⟨x, y, z, hx, hxy, hyz, hoky, -⟩ := vmalloc_vfree_first
  exact ⟨y, .step (.init hx) hxy.2, hyz.2.1, hoky.list.follows, hoky.list.vfree_null rfl,
    hoky.list.not_touches rfl⟩

end Kfs
