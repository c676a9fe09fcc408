import Kfs.VmemRun

/-!
# Capacities

A block of fresh pages records how much memory it has, and the recorded
capacities tile the region: a block of `capacity` bytes ends where the next
header starts. Expanding and merging keep this. Splitting does not: the first
half keeps the capacity of the whole block and the second half is given none,
so the tiling survives a run exactly as long as no `vmalloc` of it splits.
-/

namespace Kfs

open Kfs.Lib

/-- The blocks at `as` lie end to end by their capacities, up to `e`. -/
def CapTiled (m : Mem) (e : Nat) : List Nat → Prop
  | [] => True
  | a :: as => load32 m a ≤ load32 m (a + 4) ∧ a + 20 + load32 m (a + 4) = as.headD e ∧
      CapTiled m e as

/-- The listed blocks tile the region, and the test of `vfree` for adjacent blocks is
true exactly of neighbours. -/
def CapacityOk (s : State Flat) : Prop :=
  ∃ as, Follows s.mem.data 16 s.vmem.vmemList as ∧ CapTiled s.mem.data s.vmem.vmemCurrent as ∧
    ∀ a b, a ∈ as → b ∈ as →
      (add32 (add32 a vmemHeader) (load32 s.mem.data (a + 4)) = b ↔
        ∃ pre post, as = pre ++ a :: b :: post)

theorem CapTiled.lt {m : Mem} {e : Nat} : ∀ {as : List Nat}, CapTiled m e as → ∀ a ∈ as, a < e
  | [], _, _, ha => by cases ha
  | b :: as, ⟨_, hend, htail⟩, a, ha => by
    have hnext : as.headD e ≤ e := by
      cases as with
      | nil => exact Nat.le_refl _
      | cons c as => exact Nat.le_of_lt (htail.lt c List.mem_cons_self)
    rcases List.mem_cons.mp ha with rfl | ha
    · omega
    · exact htail.lt a ha

theorem CapTiled.drop {m : Mem} {e : Nat} {as : List Nat} :
    ∀ {pre : List Nat}, CapTiled m e (pre ++ as) → CapTiled m e as
  | [], h => h
  | _ :: _, h => CapTiled.drop h.2.2

theorem CapTiled.touch {m : Mem} {e a b : Nat} {pre post : List Nat}
    (h : CapTiled m e (pre ++ a :: b :: post)) : a + 20 + load32 m (a + 4) = b :=
  h.drop.2.1

theorem CapTiled.touch_iff {m : Mem} {e : Nat} {as : List Nat} (h : CapTiled m e as) {a b : Nat}
    (ha : a ∈ as) (hb : b ∈ as) :
    a + 20 + load32 m (a + 4) = b ↔ ∃ pre post, as = pre ++ a :: b :: post := by
  constructor
  · intro hab
    obtain ⟨pre, post, rfl⟩ := List.append_of_mem ha
    have hend := h.drop.2.1
    cases post with
    | nil =>
      -- the last block ends at `e`, past every listed block
      have hlt := h.lt b hb
      rw [hab] at hend
      exact absurd hend (Nat.ne_of_lt hlt)
    | cons c post =>
      rw [hab] at hend
      exact ⟨pre, post, by rw [hend]; rfl⟩
  · rintro ⟨pre, post, rfl⟩
    exact h.touch

theorem CapTiled.end_le {m : Mem} {e : Nat} {as : List Nat} (h : CapTiled m e as) {a : Nat}
    (ha : a ∈ as) : a + 20 + load32 m (a + 4) ≤ e := by
  obtain ⟨pre, post, rfl⟩ := List.append_of_mem ha
  rw [h.drop.2.1]
  cases post with
  | nil => exact Nat.le_refl _
  | cons c post => exact Nat.le_of_lt (h.lt c (by simp))

theorem CapTiled.capacityOk {s : State Flat} {as : List Nat}
    (hf : Follows s.mem.data 16 s.vmem.vmemList as)
    (h : CapTiled s.mem.data s.vmem.vmemCurrent as) (hhi : s.vmem.vmemCurrent ≤ 0xC00000) :
    CapacityOk s := by
  refine ⟨as, hf, h, fun a b ha hb => ?_⟩
  have hle := h.end_le ha
  rw [← h.touch_iff ha hb]
  simp only [add32, vmemHeader]
  rw [Nat.mod_eq_of_lt (a := a + 20) (by omega), Nat.mod_eq_of_lt (by omega)]

/-! ## The block list -/

/-- Every block records its capacity, and they lie end to end. -/
def Whole (e : Nat) : List VBlk → Prop
  | [] => True
  | b :: bs => (∃ c, b.cap = some c ∧ b.size ≤ c ∧
      b.addr + 20 + c = (bs.map VBlk.addr).headD e) ∧ Whole e bs

theorem Whole.capTiled {m : Mem} {e : Nat} : ∀ {bs : List VBlk}, Whole e bs →
    (∀ b ∈ bs, vNode.holds m b) → CapTiled m e (bs.map VBlk.addr)
  | [], _, _ => trivial
  | b :: bs, ⟨⟨c, hc, hz, hend⟩, htail⟩, hm => by
    obtain ⟨h1, -, -, h4⟩ := hm b List.mem_cons_self
    have hcap := h4 c hc
    refine ⟨?_, ?_, htail.capTiled fun d hd => hm d (List.mem_cons_of_mem _ hd)⟩
    · rw [h1, hcap]
      exact hz
    · rw [hcap]
      exact hend

theorem Whole.mem {e : Nat} : ∀ {bs : List VBlk}, Whole e bs → ∀ b ∈ bs,
    ∃ c, b.cap = some c ∧ b.size ≤ c
  | [], _, _, hb => by cases hb
  | _ :: _, ⟨⟨c, hc, hz, _⟩, htail⟩, b, hb => by
    rcases List.mem_cons.mp hb with rfl | hb
    · exact ⟨c, hc, hz⟩
    · exact htail.mem b hb

theorem Whole.setFree {e : Nat} {b : VBlk} {post : List VBlk} (f : Bool) :
    ∀ {pre : List VBlk}, Whole e (pre ++ b :: post) → Whole e (pre ++ { b with free := f } :: post)
  | [], h => h
  | a :: pre, ⟨hhead, htail⟩ => by
    refine ⟨?_, htail.setFree f⟩
    have haddr : (pre ++ { b with free := f } :: post).map VBlk.addr =
        (pre ++ b :: post).map VBlk.addr := by simp
    have hhead : ∃ c, a.cap = some c ∧ a.size ≤ c ∧
        a.addr + 20 + c = ((pre ++ b :: post).map VBlk.addr).headD e := hhead
    rw [← haddr] at hhead
    exact hhead

theorem Whole.append {e e' z c : Nat} {f : Bool} (hz : z ≤ c) (hc : e + 20 + c = e') :
    ∀ {bs : List VBlk}, Whole e bs → Whole e' (bs ++ [⟨e, z, f, some c⟩])
  | [], _ => ⟨⟨c, rfl, hz, hc⟩, trivial⟩
  | b :: bs, ⟨hhead, htail⟩ => by
    refine ⟨?_, htail.append hz hc⟩
    have hnext : ((bs ++ [(⟨e, z, f, some c⟩ : VBlk)]).map VBlk.addr).headD e' =
        (bs.map VBlk.addr).headD e := by
      cases bs <;> rfl
    rw [← hnext] at hhead
    exact hhead

theorem Whole.vmerge {e : Nat} {bs : List VBlk} (h : Whole e bs) : Whole e (vmerge bs) := by
  unfold Kfs.vmerge
  split
  · next a z c a' z' c' bs =>
    split
    · next hend =>
      obtain ⟨⟨d, hd, hz, -⟩, ⟨d', hd', -, hend'⟩, htail⟩ := h
      cases hd
      cases hd'
      have hend' : a' + 20 + c' = (bs.map VBlk.addr).headD e := hend'
      have hz : z ≤ c := hz
      exact ⟨⟨c + (20 + c'), rfl, show z ≤ _ by omega, show a + 20 + _ = _ by omega⟩, htail⟩
    · exact h
  · exact h

/-! ## Runs -/

/-- The listed block that `vmalloc` takes for `r` bytes. -/
def vmallocFinds (m : Mem) (r : Nat) (as : List Nat) : Option Nat :=
  as.find? fun a => load32 m (a + 8) ≠ 0 ∧ r ≤ load32 m a

/-- `vmalloc(n)` cuts the block it takes in two. -/
def Splits (s : State Flat) (n : Nat) : Prop :=
  ∃ as a, Follows s.mem.data 16 s.vmem.vmemList as ∧
    vmallocFinds s.mem.data (round8 n) as = some a ∧ round8 n + 36 ≤ load32 s.mem.data a

variable (img : Image)

/-- A call of `vmalloc` or of `vfree` on a live pointer, or a client's write. -/
def TileStep (x : VmemSys Flat) (op : VmemOp) (y : VmemSys Flat) : Prop :=
  (∀ a, op ≠ .vbrk a) ∧ VmemStep img x op y

def NoSplit (x : VmemSys Flat) (op : VmemOp) : Prop := ∀ n, op = .vmalloc n → ¬ Splits x.st n

variable {img}

theorem vmallocFinds_eq {m : Mem} {r : Nat} : ∀ {bs : List VBlk}, (∀ b ∈ bs, vNode.holds m b) →
    vmallocFinds m r (bs.map VBlk.addr) = (bs.find? fun b => b.Fits r).map VBlk.addr
  | [], _ => rfl
  | b :: bs, hm => by
    obtain ⟨h1, h2, -, -⟩ := hm b List.mem_cons_self
    have hfits : (load32 m (b.addr + 8) ≠ 0 ∧ r ≤ load32 m b.addr) ↔ b.Fits r := by
      rw [h1, h2]
      unfold VBlk.Fits
      cases b.free <;> simp
    have ih := vmallocFinds_eq (r := r) fun c hc => hm c (List.mem_cons_of_mem _ hc)
    unfold vmallocFinds at ih ⊢
    rw [List.map_cons, List.find?_cons, List.find?_cons, decide_eq_decide.mpr hfits, ih]
    cases decide (b.Fits r) <;> rfl

theorem VmemInv.follows {s : State Flat} {bs : List VBlk} (h : VmemInv flatData s bs) :
    Follows s.mem.data 16 s.vmem.vmemList (bs.map VBlk.addr) := h.list.follows

theorem VmemInv.splits_iff {s : State Flat} {bs : List VBlk} (h : VmemInv flatData s bs) {n : Nat} :
    Splits s n ↔ ∃ b, bs.find? (fun b => b.Fits (round8 n)) = some b ∧ round8 n + 36 ≤ b.size := by
  have hfinds := vmallocFinds_eq (r := round8 n) h.list.holds
  constructor
  · rintro ⟨as, a, hf, ha, hsize⟩
    obtain rfl := hf.unique h.follows
    rw [show flatData.view s = s.mem.data from rfl] at hfinds
    rw [hfinds, Option.map_eq_some_iff] at ha
    obtain ⟨b, hb, rfl⟩ := ha
    have hhold := (h.list.holds b (List.mem_of_find?_eq_some hb)).1
    rw [show flatData.view s = s.mem.data from rfl] at hhold
    exact ⟨b, hb, by omega⟩
  · rintro ⟨b, hb, hsize⟩
    have hhold := (h.list.holds b (List.mem_of_find?_eq_some hb)).1
    refine ⟨_, b.addr, h.follows, ?_, ?_⟩
    · exact hfinds.trans (by rw [hb]; rfl)
    · exact hhold ▸ hsize

theorem find_first {p : VBlk → Prop} [DecidablePred p] {pre post : List VBlk} {b : VBlk}
    (hpre : ∀ c ∈ pre, ¬ p c) (hb : p b) : (pre ++ b :: post).find? (fun c => p c) = some b := by
  rw [List.find?_eq_some_iff_append]
  exact ⟨decide_eq_true hb, pre, post, rfl, fun c hc => by simp [hpre c hc]⟩

def TiledOk (img : Image) (x : VmemSys Flat) : Prop :=
  ∃ bs, VmemOk img x bs ∧ Whole x.st.vmem.vmemCurrent bs

theorem TiledOk.capacityOk {x : VmemSys Flat} (h : TiledOk img x) : CapacityOk x.st := by
  obtain ⟨bs, hok, hw⟩ := h
  exact (hw.capTiled hok.list.list.holds).capacityOk hok.list.follows hok.list.hi

/-- A state whose list has a block that ends before its capacity does is not tiled. -/
theorem VmemInv.not_capacityOk {s : State Flat} {pre post : List VBlk} {b d : VBlk} {c : Nat}
    (h : VmemInv flatData s (pre ++ b :: d :: post)) (hc : b.cap = some c)
    (hlt : d.addr < b.addr + 20 + c) : ¬ CapacityOk s := by
  rintro ⟨as, hf, ht, -⟩
  obtain rfl := hf.unique h.follows
  rw [List.map_append, List.map_cons, List.map_cons] at ht
  have htouch := ht.touch
  have hcap := (h.list.holds b (by simp)).2.2.2 c hc
  rw [show flatData.view s = s.mem.data from rfl] at hcap
  omega

/-- **A step from a tiled state** ends in one exactly when it does not split. -/
theorem TileStep.tiled {x y : VmemSys Flat} {op : VmemOp} (h : TiledOk img x)
    (hs : TileStep img x op y) :
    (CapacityOk y.st ↔ NoSplit x op) ∧ (NoSplit x op → TiledOk img y) := by
  obtain ⟨bs, hok, hw⟩ := h
  obtain ⟨s', live'⟩ := y
  obtain ⟨hno, hs⟩ := hs
  have hgood : TiledOk img ⟨s', live'⟩ → NoSplit x op →
      (CapacityOk s' ↔ NoSplit x op) ∧ (NoSplit x op → TiledOk img ⟨s', live'⟩) :=
    fun ht hn => ⟨iff_of_true ht.capacityOk hn, fun _ => ht⟩
  cases op with
  | vmalloc n =>
    obtain ⟨h1, h2, p, hr, rfl⟩ := hs
    obtain ⟨pre, b, post, rfl, hpre, hb, rfl, hv, hok'⟩ | ⟨hfull, rfl, k, hx, hok'⟩ :=
      hok.vmalloc_cases (by omega) (hok.no_wrap h2) hr
    · have hfind : (pre ++ b :: post).find? (fun c => c.Fits (round8 n)) = some b :=
        find_first hpre hb
      by_cases hsplit : round8 n + 36 ≤ b.size
      · -- the first half keeps the capacity of the block, which is too large for it
        obtain ⟨c, hc, hz⟩ := hw.mem b (by simp)
        have hbad : ¬ NoSplit x (.vmalloc n) := fun hn =>
          hn n rfl (hok.list.splits_iff.mpr ⟨b, hfind, hsplit⟩)
        have hlist := hok'.list
        unfold VBlk.serve at hlist
        rw [if_pos hsplit, List.append_assoc] at hlist
        refine ⟨iff_of_false (hlist.not_capacityOk hc ?_) hbad, fun hn => absurd hn hbad⟩
        show b.addr + 20 + round8 n < b.addr + 20 + c
        omega
      · refine hgood ⟨_, hok', ?_⟩ fun m hm hsp => ?_
        · show Whole s'.vmem.vmemCurrent _
          have hv : s' = _ := hv
          unfold VBlk.serve
          rw [hv, if_neg hsplit, List.append_assoc]
          exact hw.setFree false
        · cases hm
          obtain ⟨d, hd, hsize⟩ := hok.list.splits_iff.mp hsp
          rw [hfind] at hd
          cases hd
          exact hsplit hsize
    · refine hgood ⟨_, hok', ?_⟩ fun m hm hsp => ?_
      · show Whole s'.vmem.vmemCurrent _
        have hk := hx.room
        rw [hx.current]
        exact hw.append (by omega) (by omega)
      · cases hm
        obtain ⟨d, hd, -⟩ := hok.list.splits_iff.mp hsp
        have hfits := List.find?_some hd
        exact hfull d (List.mem_of_find?_eq_some hd) (of_decide_eq_true hfits)
  | vfree p =>
    obtain ⟨hp, hr, rfl⟩ := hs
    obtain ⟨pre, b, post, rfl, -, hv, hok'⟩ := hok.vfree hp hr
    refine hgood ⟨_, hok', ?_⟩ fun m hm => by cases hm
    show Whole s'.vmem.vmemCurrent _
    rw [hv]
    exact (hw.setFree true).vmerge
  | vbrk a => exact absurd rfl (hno a)
  | write p a v =>
    obtain ⟨hp, h1, h2, hst, rfl⟩ := hs
    have hst : s' = x.st.setData (storeByte x.st.mem.data a v) := hst
    subst hst
    exact hgood ⟨bs, hok.write hp h1 h2, hw⟩ fun m hm => by cases hm

/-- **When the blocks tile the region by capacity.** In every run of `vmalloc` and `vfree`
from start-up, the listed blocks lie end to end by their capacities in every
state if and only if no `vmalloc` of the run splits a block. -/
theorem vmem_capacity {x : VmemSys Flat} (h : VmemStart img x) {tr : List (VmemOp × VmemSys Flat)}
    (ht : Trace (TileStep img) x tr) :
    CapacityOk x.st ∧ Trace (fun _ _ y => CapacityOk y.st) x tr ↔ Meets NoSplit x tr := by
  have hx : TiledOk img x := ⟨[], h.ok, trivial⟩
  have hrun := Trace.iff_meets (I := TiledOk img) (G := fun _ _ y => CapacityOk y.st)
    (fun x i y hI hs => (hs.tiled hI).1) (fun x i y hI hs hc => (hs.tiled hI).2 hc) hx ht
  rw [hrun]
  exact and_iff_right hx.capacityOk

theorem vmalloc_vfree_first : ∃ x y z : VmemSys Flat, VmemStart Image.readme x ∧
    TileStep Image.readme x (.vmalloc 100) y ∧ TileStep Image.readme y (.vfree 0x300014) z ∧
    VmemOk Image.readme y [⟨0x300000, 104, false, some 4076⟩] ∧
    VmemOk Image.readme z [⟨0x300000, 104, true, some 4076⟩] ∧
    z.st.vmem.vmemCurrent = 0x301000 := by
  obtain ⟨s, hr, hboot⟩ := memoryInit_spec Image.readme Flat.blank
  have hcur : s.vmem.vmemCurrent = 0x300000 := by rw [hboot.vmem]; rfl
  obtain ⟨s', hv⟩ := vmalloc_first hboot
  obtain ⟨pre, b, post, hnil, -⟩ | ⟨-, -, k, hx, hok'⟩ :=
    hboot.vmemOk.vmalloc_cases (by decide) (hboot.vmemOk.no_wrap (by decide)) hv
  · simp at hnil
  have hk1 : k = 1 := by rw [hx.pages]; decide
  have hpages : (⟨s.vmem.vmemCurrent, round8 100, false, some (k * 4096 - 20)⟩ : VBlk) =
      ⟨0x300000, 104, false, some 4076⟩ := by
    rw [hk1, hcur]
    rfl
  rw [hpages, List.nil_append] at hok'
  have hlive : (0x300014 : Nat) ∈ (insert 0x300014 ∅ : Finset Nat) := Finset.mem_insert_self _ _
  obtain ⟨d, hf, -⟩ := vfree_spec flatData_isData
    (show VmemInv flatData s' ([] ++ ⟨0x300000, 104, false, some 4076⟩ :: []) from hok'.list)
    (flatData_plain _ _) rfl
  obtain ⟨pre, b, post, hb, -, hv', hok''⟩ := hok'.vfree hlive hf
  have hb' : pre = [] ∧ b = ⟨0x300000, 104, false, some 4076⟩ ∧ post = [] := by
    cases pre with
    | nil =>
      injection hb with h1 h2
      exact ⟨rfl, h1.symm, h2.symm⟩
    | cons c pre => simp at hb
  obtain ⟨rfl, rfl, rfl⟩ := hb'
  refine ⟨⟨s, ∅⟩, ⟨s', _⟩, ⟨_, _⟩, ⟨_, hr, rfl⟩,
    ⟨fun _ => by simp, by decide, by decide, _, hv, rfl⟩,
    ⟨fun _ => by simp, hlive, hf, rfl⟩, hok', hok'', ?_⟩
  show (flatData.put s' d).vmem.vmemCurrent = _
  rw [hv', show (⟨s', _⟩ : VmemSys Flat).st.vmem.vmemCurrent = _ from hx.current, hk1, hcur]

/-- A freed block can be taken again as a whole. -/
theorem vmem_capacity_reused : ∃ (x : VmemSys Flat) (tr : List (VmemOp × VmemSys Flat)),
    VmemStart Image.readme x ∧ Trace (TileStep Image.readme) x tr ∧
    tr.map Prod.fst = [.vmalloc 100, .vfree 0x300014, .vmalloc 100] ∧
    Trace (fun _ _ y => CapacityOk y.st) x tr := by
  obtain ⟨x, y, z, hx, hxy, hyz, hoky, hokz, hcur⟩ := vmalloc_vfree_first
  obtain ⟨d, hv, -⟩ := vmalloc_hit flatData_isData Image.readme
    (show VmemInv flatData z.st ([] ++ ⟨0x300000, 104, true, some 4076⟩ :: []) from hokz.list)
    (flatData_plain _ _) (n := 100) (by decide) (by simp) ⟨rfl, by decide⟩
  have hrun : Trace (TileStep Image.readme) x [(.vmalloc 100, y), (.vfree 0x300014, z),
      (.vmalloc 100, ⟨flatData.put z.st d, insert 0x300014 z.live⟩)] :=
    ⟨hxy, hyz, ⟨fun _ => by simp, by decide, by decide, _, hv, rfl⟩, trivial⟩
  have hno : Meets NoSplit x [(.vmalloc 100, y), (.vfree 0x300014, z),
      (.vmalloc 100, ⟨flatData.put z.st d, insert 0x300014 z.live⟩)] := by
    refine ⟨fun n hn hsp => ?_, fun n hn => (by cases hn), fun n hn hsp => ?_, trivial⟩
    · obtain ⟨b, hb, -⟩ := hx.ok.list.splits_iff.mp hsp
      cases hb
    · cases hn
      obtain ⟨b, hb, hsize⟩ := hokz.list.splits_iff.mp hsp
      have hb : some (⟨0x300000, 104, true, some 4076⟩ : VBlk) = some b := hb
      cases hb
      exact absurd hsize (by decide)
  exact ⟨x, _, hx, hrun, rfl, ((vmem_capacity hx hrun).mpr hno).2⟩

/-- A smaller request splits it, and the capacity of 4076 bytes stays with 8 of them. -/
theorem split_keeps_capacity : ∃ (x : VmemSys Flat) (tr : List (VmemOp × VmemSys Flat)),
    VmemStart Image.readme x ∧ Trace (TileStep Image.readme) x tr ∧
    tr.map Prod.fst = [.vmalloc 100, .vfree 0x300014, .vmalloc 8] ∧
    ¬ CapacityOk (lastOf x tr).st := by
  obtain ⟨x, y, z, hx, hxy, hyz, hoky, hokz, hcur⟩ := vmalloc_vfree_first
  obtain ⟨d, hv, -⟩ := vmalloc_hit flatData_isData Image.readme
    (show VmemInv flatData z.st ([] ++ ⟨0x300000, 104, true, some 4076⟩ :: []) from hokz.list)
    (flatData_plain _ _) (n := 8) (by decide) (by simp) ⟨rfl, by decide⟩
  have hlast : TileStep Image.readme z (.vmalloc 8) ⟨flatData.put z.st d, insert 0x300014 z.live⟩ :=
    ⟨fun _ => by simp, by decide, by decide, _, hv, rfl⟩
  have hz : TiledOk Image.readme z := by
    refine ⟨_, hokz, ⟨4076, rfl, by decide, ?_⟩, trivial⟩
    rw [hcur]
    rfl
  refine ⟨x, [(.vmalloc 100, y), (.vfree 0x300014, z), (.vmalloc 8, _)], hx,
    ⟨hxy, hyz, hlast, trivial⟩, rfl, fun hcap => ?_⟩
  have hno := (hlast.tiled hz).1.mp hcap
  exact hno 8 rfl (hokz.list.splits_iff.mpr ⟨_, rfl, by decide⟩)

end Kfs
