import Kfs.KHeapRun

/-!
# What `kfree` accepts

`kfree` decides by one word, the magic at `ptr - 8`, and looks nowhere else: it
panics, with nothing changed, exactly when that word is not
`MAGIC_ALLOCATED` (`kfree_rejects`, `kfree_accepts`). So it accepts live
pointers only as long as no other four bytes of the heap read as the magic.
The heap's own words never make any (`Quiet`), but clients can, and then `kfree`
accepts the address 8 bytes further on. A run is safe throughout exactly
when no client does.
-/

namespace Kfs

open Kfs.Lib

/-! ## One call -/

section Call

variable {s : State Flat} {a : Nat}

theorem kfree_magic :
    (ld (sub32 a headerSize + 8) : K Flat Nat) s = .ok (load32 s.mem.data (sub32 a 8)) s := by
  have hblk : (sub32 a headerSize + 8) % 2 ^ 32 = sub32 a 8 := by
    simp only [sub32, headerSize]
    omega
  unfold ld
  rw [hblk]
  rfl

theorem kfree_rejects (ha : a ≠ 0)
    (hm : load32 s.mem.data (sub32 a 8) ≠ magicAllocated) :
    ∃ fmt args, kfree a s = .error (.panic fmt args) s := by
  unfold kfree
  rw [if_neg ha]
  dsimp only
  rw [bind_of_ok kfree_magic]
  by_cases hfreed : load32 s.mem.data (sub32 a 8) = magicFreed
  · rw [if_pos hfreed]
    exact ⟨_, _, rfl⟩
  · rw [if_neg hfreed, if_pos hm]
    exact ⟨_, _, rfl⟩

theorem mergeStep_total (c : Nat) :
    Total (fun _ _ => True) (mergeStep c : K Flat (Nat ⊕ Unit)) := by
  have hframe : Frame fun _ _ : State Flat => True := ⟨fun _ => trivial, fun _ _ => trivial⟩
  have hld : ∀ a, Total (fun _ _ => True) (ld a : K Flat Nat) := fun _ _ => ⟨_, _, rfl, trivial⟩
  have hst : ∀ a v, Total (fun _ _ => True) (st a v : K Flat Unit) :=
    fun _ _ _ => ⟨_, _, rfl, trivial⟩
  have htest : ∀ a, Total (fun _ _ => True) (do return decide ((← ld a) ≠ 0) : K Flat Bool) :=
    fun a => .bind hframe (hld a) fun _ => .pure hframe _
  refine .ite (fun _ => .pure hframe _) fun _ => .bind hframe (hld _) fun next =>
    .ite (fun _ => .pure hframe _) fun _ => .bind hframe (hld _) fun size => ?_
  refine .bind hframe (.bind hframe (htest _) fun p => .ite (fun _ => htest _) fun _ =>
    .pure hframe _) fun bothFree => .ite (fun _ => ?_) fun _ => .pure hframe _
  exact .bind hframe (hld _) fun _ => .bind hframe (hst _ _) fun _ => .bind hframe (hld _) fun _ =>
    .bind hframe (hst _ _) fun _ => .pure hframe _

theorem kfree_accepts (ha : 16 ≤ a) (ha' : a < 2 ^ 32)
    (hm : load32 s.mem.data (a - 8) = magicAllocated) {fmt : String} {args : List Nat}
    {s' : State Flat} : kfree a s ≠ .error (.panic fmt args) s' := by
  intro h
  have hblk : sub32 a headerSize = a - 16 := by
    simp only [sub32, headerSize]
    omega
  unfold kfree at h
  rw [if_neg (by omega)] at h
  dsimp only at h
  rw [bind_of_ok kfree_magic, sub32_eq (by omega) ha', hm, if_neg (by decide),
    if_neg (by decide), hblk,
    bind_of_ok (st_flat (by omega) _ _), bind_of_ok (st_flat (by omega) _ _),
    bind_of_ok (ld_flat (by omega) _), setHeapUsed, modify_bind_apply, get_bind_apply] at h
  have hstop := iterate_stops mergeStep_total h
  cases hstop

end Call

/-! ## Runs -/

/-- What a client can do: call `kmalloc`, call `kfree` on a live pointer, or store the
word `v` at address `a` of the live payload at `p`. -/
inductive ClientOp where
  | kmalloc (n : Nat)
  | kfree (p : Nat)
  | store (p a v : Nat)

def ClientStep (x : HeapSys) : ClientOp → HeapSys → Prop
  | .kmalloc n, y => HeapStep x (.kmalloc n) y
  | .kfree p, y => HeapStep x (.kfree p) y
  | .store p a v, y => p ∈ x.live ∧ p ≤ a ∧ a + 4 ≤ p + x.sizeOf p ∧
      y.st = x.st.setData (store32 x.st.mem.data a v) ∧ y.live = x.live

/-- The state after `kheap_init` on a heap region of zeros. -/
def ZeroStart (x : HeapSys) : Prop :=
  ∃ img s, kheapInit img s = .ok () x.st ∧ x.live = ∅ ∧
    ∀ a, kheapStart ≤ a → a ≤ kheapEnd → s.mem.data a = 0

/-- `kfree` accepts, of all addresses in the heap region, only live pointers, and panics
with nothing changed at any other. -/
def OnlyLive (x : HeapSys) : Prop :=
  ∀ a, kheapStart ≤ a → a ≤ kheapEnd →
    ((∃ s', kfree a x.st = .ok () s') → a ∈ x.live) ∧
    (a ∉ x.live → ∃ fmt args, kfree a x.st = .error (.panic fmt args) x.st)

/-- The address `u` is where `kfree` looks for the magic of an address in the region. -/
def Looked (u : Nat) : Prop := kheapStart ≤ u + 8 ∧ u + 8 ≤ kheapEnd

/-- Nothing right below the heap reads as the magic. -/
def CleanBelow (x : HeapSys) : Prop :=
  ∀ u, Looked u → u + 4 ≤ kheapStart → load32 x.st.mem.data u ≠ magicAllocated

/-- A client's store leaves no magic among the bytes it wrote and those beside them. -/
def Unforged (x : HeapSys) (op : ClientOp) : Prop :=
  ∀ p a v, op = .store p a v → ∀ u, Looked u → u < a + 4 → a < u + 4 →
    load32 (store32 x.st.mem.data a v) u ≠ magicAllocated

/-- Every magic `kfree` can look at belongs to a live pointer. -/
def NoForged (x : HeapSys) : Prop :=
  ∀ u, Looked u → load32 x.st.mem.data u = magicAllocated → u + 8 ∈ x.live

theorem onlyLive_iff {x : HeapSys} : OnlyLive x ↔ NoForged x := by
  constructor
  · intro h u hu hm
    obtain ⟨h1, h2⟩ := hu
    by_contra hlive
    obtain ⟨fmt, args, hr⟩ := (h (u + 8) h1 h2).2 hlive
    simp only [kheapStart, kheapEnd] at h1 h2
    exact kfree_accepts (by omega) (by omega) (by rw [Nat.add_sub_cancel]; exact hm) hr
  · intro h a h1 h2
    have ha : 0x200000 ≤ a ∧ a ≤ 0x2FFFFF := ⟨h1, h2⟩
    by_cases hm : load32 x.st.mem.data (a - 8) = magicAllocated
    · have hlive : a ∈ x.live := by
        have := h (a - 8) ⟨by omega, by omega⟩ hm
        rwa [Nat.sub_add_cancel (by omega)] at this
      exact ⟨fun _ => hlive, fun hno => absurd hlive hno⟩
    · rw [← sub32_eq (show 8 ≤ a by omega) (by omega)] at hm
      obtain ⟨fmt, args, hr⟩ := kfree_rejects (by omega) hm
      refine ⟨?_, fun _ => ⟨fmt, args, hr⟩⟩
      rintro ⟨s', hok⟩
      rw [hr] at hok
      cases hok

/-- **After `kheap_init`** the heap region holds no magic. -/
theorem ZeroStart.noForged_iff {x : HeapSys} (h : ZeroStart x) : NoForged x ↔ CleanBelow x := by
  obtain ⟨img, s, hr, hlive, hzero⟩ := h
  have hmem := kheapInit_data hr
  constructor
  · intro hno u hu _ hm
    have := hno u hu hm
    rw [hlive] at this
    cases this
  · intro hclean u hu hm
    -- the words of the first header are inert, and the rest is zero
    have hquiet : Quiet magicAllocated (fun _ => False) s.mem.data (freshHeap s.mem.data) :=
      Quiet.store (Quiet.store (Quiet.store (Quiet.refl _ _ _) (by decide)) inert_one) inert_zero
    by_cases hlow : u + 4 ≤ kheapStart
    · exact absurd hm (hclean u hu hlow)
    rw [hmem] at hm
    have hfirst : u + 4 ≤ kheapStart ∨ kheapStart + 4 ≤ u := by
      have hsize : Inert magicAllocated (kheapSize - headerSize) := by decide
      unfold freshHeap at hm
      have h1 := inert_zero.apart hm
      rw [load32_store32_ne h1] at hm
      have h2 := inert_one.apart hm
      rw [load32_store32_ne h2] at hm
      exact hsize.apart hm
    rcases hquiet u hm with hold | hold
    · have hbytes : load32 s.mem.data u = 0 := by
        obtain ⟨h1, h2⟩ := hu
        have hz : ∀ i, i < 4 → s.mem.data (u + i) = 0 := by
          intro i hi
          apply hzero
          · omega
          · omega
        unfold load32
        rw [show s.mem.data u = 0 from hz 0 (by omega), hz 1 (by omega), hz 2 (by omega),
          hz 3 (by omega)]
        rfl
      rw [hbytes] at hold
      exact absurd hold (by decide)
    · exact hold.elim

theorem NoForged.kmalloc {x y : HeapSys} {n : Nat} (h : HeapOk x) (hno : NoForged x)
    (hs : HeapStep x (.kmalloc n) y) : NoForged y := by
  obtain ⟨bs, hinv, hl⟩ := h
  obtain ⟨-, p, hr, hlive⟩ := hs
  intro u hu hm
  by_cases hn : n = 0
  · subst hn
    have hr : EStateM.Result.ok 0 x.st = .ok p y.st := hr
    injection hr with h1 h2
    rw [if_pos h1.symm] at hlive
    rw [← h2] at hm
    rw [hlive]
    exact hno u hu hm
  rcases first_such (Blk.Fits (round8 n)) bs with hfull | ⟨pre, b, post, rfl, hpre, hb⟩
  · rw [kmalloc_full hinv.rep hn hfull] at hr
    cases hr
  obtain ⟨s', hk, -, -, -, hstores⟩ := kmalloc_hit hinv hn hpre hb
  rw [hk] at hr
  injection hr with h1 h2
  rw [← h1, if_neg (by omega)] at hlive
  rw [← h2] at hm
  rw [hlive, Finset.mem_insert]
  rcases hstores.quiet spread_allocated u hm with hold | rfl
  · exact .inr (hno u hu hold)
  · exact .inl rfl

/-- `kfree` overwrites the magic of the block it frees, and writes none. -/
theorem NoForged.kfree {x y : HeapSys} {p : Nat} (h : HeapOk x) (hno : NoForged x)
    (hs : HeapStep x (.kfree p) y) : NoForged y := by
  obtain ⟨bs, hinv, hl⟩ := h
  obtain ⟨hp, hr, hlive⟩ := hs
  intro u hu hm
  obtain ⟨b, hb, hbf, rfl⟩ := (hl p).mp hp
  obtain ⟨pre, post, rfl⟩ := List.append_of_mem hb
  obtain ⟨s', hk, -, -, -, hstores, hfreed⟩ := kfree_spec hinv hbf
  rw [hk] at hr
  injection hr with _ h2
  rw [← h2] at hm
  rw [hlive, Finset.mem_erase]
  rcases hstores.quiet spread_allocated u hm with hold | hold
  · refine ⟨fun heq => ?_, hno u hu hold⟩
    rw [show b.addr + 8 = u by omega, hm] at hfreed
    cases hfreed
  · exact hold.elim

/-- A client's store forges a magic if it leaves one behind. -/
theorem NoForged.store {x y : HeapSys} {p a v : Nat} (h : HeapOk x) (hno : NoForged x)
    (hs : ClientStep x (.store p a v) y) : HeapOk y ∧ (NoForged y ↔ Unforged x (.store p a v)) := by
  obtain ⟨bs, hinv, hl⟩ := h
  obtain ⟨hp, h1, h2, hst, hlive⟩ := hs
  obtain ⟨b, hb, hbf, rfl⟩ := (hl p).mp hp
  have hsize : x.sizeOf (b.addr + 16) = b.size := hinv.header_size hb
  rw [hsize] at h2
  have hmem : y.st.mem.data = store32 x.st.mem.data a v := by rw [hst]; rfl
  have hinv' := (hinv.rep.store (v := v) hb h1 h2).inv hinv.coalesced
  refine ⟨⟨bs, hst ▸ hinv', hlive ▸ hl⟩, fun hy p' a' v' he u hu hu1 hu2 hm => ?_,
    fun hun u hu hm => ?_⟩
  · -- a live pointer's magic lies in a header, which the store does not touch
    cases he
    rw [← hmem] at hm
    have hlive' := hy u hu hm
    rw [hlive] at hlive'
    obtain ⟨c, hc, -, hcu⟩ := (hl (u + 8)).mp hlive'
    have hsep := hinv.tiled.sep hb hc
    simp only [headerSize] at hsep
    rcases hsep with h3 | h3 | h3
    · subst h3
      omega
    · omega
    · omega
  · rw [hmem] at hm
    rw [hlive]
    by_cases hover : u < a + 4 ∧ a < u + 4
    · exact absurd hm (hun _ a v rfl u hu hover.1 hover.2)
    · rw [load32_store32_ne (by omega)] at hm
      exact hno u hu hm

/-- **A step** keeps the representation, and makes a magic that is not live exactly when
it is a store that forges one. -/
theorem ClientStep.noForged {x y : HeapSys} {op : ClientOp} (h : HeapOk x) (hno : NoForged x)
    (hs : ClientStep x op y) : HeapOk y ∧ (NoForged y ↔ Unforged x op) := by
  cases op with
  | kmalloc n =>
    have hstep : HeapStep x (.kmalloc n) y := hs
    exact ⟨hstep.ok h, iff_of_true (hno.kmalloc h hstep) fun p a v he => (by cases he)⟩
  | kfree p =>
    have hstep : HeapStep x (.kfree p) y := hs
    exact ⟨hstep.ok h, iff_of_true (hno.kfree h hstep) fun p a v he => (by cases he)⟩
  | store p a v => exact hno.store h hs

/-- **When `kfree` accepts only live blocks.** In every run of clients on a heap that was
zero, `kfree` accepts only live pointers and otherwise panics with nothing
changed, in every state, if and only if no magic lies right below the heap and
no store of the run leaves a magic behind. -/
theorem kfree_only_live {x : HeapSys} (h : ZeroStart x) {tr : List (ClientOp × HeapSys)}
    (ht : Trace ClientStep x tr) :
    OnlyLive x ∧ Trace (fun _ _ y => OnlyLive y) x tr ↔ CleanBelow x ∧ Meets Unforged x tr := by
  have hok : HeapOk x := by
    obtain ⟨img, s, hr, hlive, -⟩ := h
    have hstart : HeapStart x := ⟨img, s, hr, hlive⟩
    exact ⟨_, hstart.inv.1, hstart.inv.2.1⟩
  rw [onlyLive_iff, h.noForged_iff]
  refine and_congr_right fun hclean => ?_
  exact Trace.iff_meets (I := fun x => HeapOk x ∧ NoForged x) (G := fun _ _ y => OnlyLive y)
    (fun x i y hI hs => onlyLive_iff.trans (hs.noForged hI.1 hI.2).2)
    (fun x i y hI hs hc => ⟨(hs.noForged hI.1 hI.2).1, (hs.noForged hI.1 hI.2).2.mpr hc⟩)
    ⟨hok, h.noForged_iff.mpr hclean⟩ ht

theorem kmalloc_on_zero : ∃ x y : HeapSys, ZeroStart x ∧ CleanBelow x ∧
    ClientStep x (.kmalloc 16) y ∧ y.live = {0x200010} ∧
    HeapInv y.st [⟨0x200000, 16, false⟩, ⟨0x200020, 0xFFFD0, true⟩] := by
  obtain ⟨s, hr, hboot⟩ := memoryInit_spec Image.readme Flat.blank
  obtain ⟨s₀, hinit, hdata⟩ := memoryInit_kheapInit hr
  obtain ⟨s', hk, hinv, -⟩ := kmalloc_hit (n := 16)
    (show HeapInv s ([] ++ wholeHeap :: []) from hboot.heap) (by decide) (by simp) (by decide)
  have hstart : ZeroStart ⟨s, ∅⟩ := ⟨_, s₀, hinit, rfl, fun a _ _ => by rw [hdata]; rfl⟩
  have hzero : ∀ u, u + 4 ≤ kheapStart → load32 s.mem.data u = 0 := by
    intro u hu
    rw [kheapInit_data hinit, hdata]
    unfold freshHeap
    rw [load32_store32_ne (by omega), load32_store32_ne (by omega), load32_store32_ne (by omega)]
    rfl
  refine ⟨⟨s, ∅⟩, ⟨s', {0x200010}⟩, hstart, fun u _ hu => ?_, ⟨by decide, _, hk, rfl⟩, rfl, hinv⟩
  show load32 s.mem.data u ≠ _
  rw [hzero u hu]
  decide

/-- A client that stores 1 forges nothing. -/
theorem kfree_only_live_one : ∃ (x : HeapSys) (tr : List (ClientOp × HeapSys)), ZeroStart x ∧
    Trace ClientStep x tr ∧ tr.map Prod.fst = [.kmalloc 16, .store 0x200010 0x200010 1] ∧
    Trace (fun _ _ y => OnlyLive y) x tr := by
  obtain ⟨x, y, hx, hclean, hxy, hlive, hinv⟩ := kmalloc_on_zero
  have hsize : y.sizeOf 0x200010 = 16 := hinv.header_size (b := ⟨0x200000, 16, false⟩) (by simp)
  have hstore : ClientStep y (.store 0x200010 0x200010 1)
      ⟨y.st.setData (store32 y.st.mem.data 0x200010 1), y.live⟩ := by
    refine ⟨?_, Nat.le_refl _, ?_, rfl, rfl⟩
    · rw [hlive]
      exact Finset.mem_singleton_self _
    · rw [hsize]
      decide
  have hrun : Trace ClientStep x [(.kmalloc 16, y), (.store 0x200010 0x200010 1, _)] :=
    ⟨hxy, hstore, trivial⟩
  have hun : Meets Unforged x [(.kmalloc 16, y), (.store 0x200010 0x200010 1,
      ⟨y.st.setData (store32 y.st.mem.data 0x200010 1), y.live⟩)] := by
    refine ⟨fun p a v he => (by cases he), fun p a v he u _ h1 h2 hm => ?_, trivial⟩
    cases he
    have := inert_one.apart hm
    omega
  exact ⟨x, _, hx, hrun, rfl, ((kfree_only_live hx hrun).mpr ⟨hclean, hun⟩).2⟩

/-- A client that stores the magic makes `kfree` accept an address in its payload. -/
theorem kfree_accepts_forged : ∃ (x : HeapSys) (tr : List (ClientOp × HeapSys)), ZeroStart x ∧
    CleanBelow x ∧ Trace ClientStep x tr ∧
    tr.map Prod.fst = [.kmalloc 16, .store 0x200010 0x200010 0xDEADBEEF] ∧
    (lastOf x tr).live = {0x200010} ∧ ¬ OnlyLive (lastOf x tr) ∧
    ∀ fmt args s', kfree 0x200018 (lastOf x tr).st ≠ .error (.panic fmt args) s' := by
  obtain ⟨x, y, hx, hclean, hxy, hlive, hinv⟩ := kmalloc_on_zero
  have hsize : y.sizeOf 0x200010 = 16 := hinv.header_size (b := ⟨0x200000, 16, false⟩) (by simp)
  have hstore : ClientStep y (.store 0x200010 0x200010 0xDEADBEEF)
      ⟨y.st.setData (store32 y.st.mem.data 0x200010 0xDEADBEEF), y.live⟩ := by
    refine ⟨?_, Nat.le_refl _, ?_, rfl, rfl⟩
    · rw [hlive]
      exact Finset.mem_singleton_self _
    · rw [hsize]
      decide
  have hmagic :
      load32 (store32 y.st.mem.data 0x200010 0xDEADBEEF) (0x200018 - 8) = magicAllocated :=
    load32_store32 (by decide)
  refine ⟨x, [(.kmalloc 16, y), (.store 0x200010 0x200010 0xDEADBEEF, _)], hx, hclean,
    ⟨hxy, hstore, trivial⟩, rfl, hlive, fun honly => ?_, fun fmt args s' =>
      kfree_accepts (by decide) (by decide) hmagic⟩
  have hin := onlyLive_iff.mp honly 0x200010 ⟨by decide, by decide⟩ hmagic
  have hin : 0x200018 ∈ y.live := hin
  rw [hlive] at hin
  exact absurd hin (by decide)

end Kfs
