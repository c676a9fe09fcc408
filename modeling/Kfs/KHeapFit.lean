import Kfs.KHeapRun
import Kfs.Lib.Gaps

/-!
# First fit over the gaps of the heap

`kmalloc` walks a list of headers. Since the blocks tile the heap and no two
neighbours are free, the free blocks of the list are exactly the gaps between
the live blocks, and the walk meets them from the lowest address on. So the
call can be described by what is live alone (`kmalloc_first_gap`): it panics
when no gap has room for the request and a header, and serves the lowest gap
with room otherwise.
-/

namespace Kfs

open Kfs.Lib

/-- The bytes of the heap that belong to no live block, header included. -/
def HeapSys.Unowned (x : HeapSys) (a : Nat) : Prop :=
  kheapStart ≤ a ∧ a < kheapStart + kheapSize ∧
    ∀ p ∈ x.live, ¬ (p - headerSize ≤ a ∧ a < p + x.sizeOf p)

/-- `[lo, hi)` is a gap of the heap with room for `r` bytes and a header. -/
def HeapSys.Room (x : HeapSys) (r lo hi : Nat) : Prop :=
  Gap x.Unowned lo hi ∧ r + 16 ≤ hi - lo

/-- The call `kmalloc(n)` stops in `kpanic_fatal`. -/
def KmallocPanics (s : State Flat) (n : Nat) : Prop :=
  ∃ fmt args t, kmalloc n s = .error (.panic fmt args) t

section Fit

variable {x : HeapSys} {bs : List Blk} (h : HeapInv x.st bs) (hl : LiveOf x.live bs)
include h hl

theorem unowned_iff {a : Nat} :
    x.Unowned a ↔ Vacant headerSize kheapStart kheapLimit bs a := by
  unfold HeapSys.Unowned Vacant Blk.Covers
  refine and_congr_right fun _ => and_congr_right fun _ => ?_
  constructor
  · intro hno b hb hf hcov
    have hsize : x.sizeOf (b.addr + 16) = b.size := h.header_size hb
    refine hno (b.addr + 16) ((hl _).mpr ⟨b, hb, hf, rfl⟩) ?_
    rw [hsize]
    simp only [headerSize] at hcov ⊢
    omega
  · intro hno p hp hcov
    obtain ⟨b, hb, hf, rfl⟩ := (hl p).mp hp
    have hsize : x.sizeOf (b.addr + 16) = b.size := h.header_size hb
    rw [hsize] at hcov
    refine hno b hb hf ?_
    simp only [headerSize] at hcov ⊢
    omega

/-- The gaps with room are the free blocks that fit. -/
theorem room_iff {r lo hi : Nat} :
    x.Room r lo hi ↔ ∃ b ∈ bs, b.Fits r ∧ lo = b.addr ∧ hi = b.addr + 16 + b.size := by
  have hsame : x.Unowned = Vacant headerSize kheapStart kheapLimit bs :=
    funext fun a => propext (unowned_iff h hl)
  unfold HeapSys.Room
  rw [hsame, gap_iff_free (by decide) h.tiled h.coalesced]
  simp only [headerSize, Blk.Fits]
  constructor
  · rintro ⟨⟨b, hb, hf, rfl, rfl⟩, hroom⟩
    exact ⟨b, hb, ⟨hf, by omega⟩, rfl, rfl⟩
  · rintro ⟨b, hb, ⟨hf, hfit⟩, rfl, rfl⟩
    exact ⟨⟨b, hb, hf, rfl, rfl⟩, by omega⟩

theorem kmalloc_no_room {n : Nat} (hn : n ≠ 0) (hno : ¬ ∃ lo hi, x.Room (round8 n) lo hi) :
    KmallocPanics x.st n := by
  refine ⟨_, _, _, kmalloc_full h.rep hn fun b hb hfit => hno ?_⟩
  exact ⟨_, _, (room_iff h hl).mpr ⟨b, hb, hfit, rfl, rfl⟩⟩

theorem kmalloc_room {n : Nat} (hn : n ≠ 0) (hroom : ∃ lo hi, x.Room (round8 n) lo hi) :
    ∃ lo hi s, x.Room (round8 n) lo hi ∧ (∀ lo' hi', x.Room (round8 n) lo' hi' → lo ≤ lo') ∧
      kmalloc n x.st = .ok (lo + 16) s := by
  rcases first_such (Blk.Fits (round8 n)) bs with hfull | ⟨pre, b, post, rfl, hpre, hfit⟩
  · obtain ⟨lo, hi, hr⟩ := hroom
    obtain ⟨b, hb, hfit, -⟩ := (room_iff h hl).mp hr
    exact absurd hfit (hfull b hb)
  obtain ⟨s, hk, -⟩ := kmalloc_hit h hn hpre hfit
  refine ⟨b.addr, b.addr + 16 + b.size, s, ?_, fun lo' hi' hr => ?_, hk⟩
  · exact (room_iff h hl).mpr ⟨b, by simp, hfit, rfl, rfl⟩
  · obtain ⟨c, hc, hcf, rfl, -⟩ := (room_iff h hl).mp hr
    -- what comes before `b` on the list does not fit
    refine h.tiled.first_lowest ?_
    rcases List.mem_append.mp hc with hc | hc
    · exact absurd hcf (hpre c hc)
    · exact hc

end Fit

/-- **`kmalloc` fails only when it must.** In every reachable state, with `r` the request
rounded up to a multiple of 8: the call panics if and only if no maximal run of
heap bytes outside the live blocks has `r + 16` bytes, and otherwise returns the
address 16 bytes into the lowest such run. -/
theorem kmalloc_first_gap {x : HeapSys} (h : Reach HeapStart HeapStep x) {n : Nat} (hn : 1 ≤ n)
    (hn' : n ≤ 0xFFFFFFF8) :
    (KmallocPanics x.st n ↔ ¬ ∃ lo hi, x.Room ((n + 7) / 8 * 8) lo hi) ∧
    ((∃ lo hi, x.Room ((n + 7) / 8 * 8) lo hi) →
      ∃ lo hi s, x.Room ((n + 7) / 8 * 8) lo hi ∧
        (∀ lo' hi', x.Room ((n + 7) / 8 * 8) lo' hi' → lo ≤ lo') ∧
        kmalloc n x.st = .ok (16 + lo) s) := by
  obtain ⟨bs, hinv, hl⟩ := heapReach_ok h
  rw [← round8_eq hn']
  refine ⟨⟨?_, fun hno => kmalloc_no_room hinv hl (by omega) hno⟩, fun hroom => ?_⟩
  · rintro ⟨fmt, args, s, hpanic⟩ hroom
    obtain ⟨lo, hi, s', -, -, hk⟩ := kmalloc_room hinv hl (by omega) hroom
    rw [hk] at hpanic
    cases hpanic
  · obtain ⟨lo, hi, s, hr, hlow, hk⟩ := kmalloc_room hinv hl (by omega) hroom
    exact ⟨lo, hi, s, hr, hlow, by rw [hk, Nat.add_comm]⟩

/-- After a first allocation of 20 bytes a request of 100 gets the gap behind it, and one
of 1 MB has no room. -/
theorem kmalloc_first_gap_second : ∃ x, Reach HeapStart HeapStep x ∧ x.live = {0x200010} ∧
    (∃ s, kmalloc 100 x.st = .ok (16 + 0x200028) s) ∧ KmallocPanics x.st 0x100000 := by
  obtain ⟨x, hx, hlive, hinv⟩ := heapRun_kmalloc
  have hl : LiveOf x.live [⟨0x200000, 24, false⟩, ⟨0x200028, 0xFFFC8, true⟩] := by
    intro p
    rw [hlive]
    simp
  refine ⟨x, hx, hlive, ?_, ?_⟩
  · have hroom := (room_iff hinv hl (r := (100 + 7) / 8 * 8)).mpr
      ⟨⟨0x200028, 0xFFFC8, true⟩, by simp, by decide, rfl, rfl⟩
    obtain ⟨lo, hi, s, hr, -, hk⟩ := (kmalloc_first_gap hx (n := 100) (by decide) (by decide)).2
      ⟨_, _, hroom⟩
    obtain ⟨b, hb, hfit, rfl, -⟩ := (room_iff hinv hl).mp hr
    simp only [List.mem_cons, List.not_mem_nil, or_false] at hb
    rcases hb with rfl | rfl
    · exact absurd hfit (by decide)
    · exact ⟨s, hk⟩
  · refine (kmalloc_first_gap hx (by decide) (by decide)).1.mpr ?_
    rintro ⟨lo, hi, hr⟩
    obtain ⟨b, hb, hfit, -⟩ := (room_iff hinv hl).mp hr
    simp only [List.mem_cons, List.not_mem_nil, or_false] at hb
    rcases hb with rfl | rfl <;> exact absurd hfit (by decide)

end Kfs
