import Mathlib.Data.List.GetD
import Mathlib.Order.Basic

/-!
# Printing on a screen that scrolls

What is printed is a sheet of lines without end; a screen of `h` rows shows its last `h`
lines. `put` says what a character does to the sheet, `shown` which line stands in which
row, and the lemmas which rows a character changes: one, or none, or all of them by one
step up when a line ends in the last row.

The sheet knows the longest line that it ever held, so that it can be said that no line was
too long for a row.
-/

namespace Kfs.Lib

/-- The finished lines, the latest first, and the line that is being printed. -/
structure Sheet (α : Type) where
  above : List (List α)
  line : List α
  widest : Nat
  bound : ∀ l ∈ line :: above, l.length ≤ widest

/-- What can be printed. -/
inductive Stroke (α : Type) where
  | char (a : α)
  | newline
  | back
  | clear

namespace Sheet

variable {α : Type}

def empty : Sheet α := ⟨[], [], 0, by simp⟩

/-- Another line in the place of the last one. -/
def write (s : Sheet α) (l : List α) : Sheet α where
  above := s.above
  line := l
  widest := max s.widest l.length
  bound := by
    rintro l' hl
    rcases List.mem_cons.mp hl with rfl | hl
    · exact Nat.le_max_right _ _
    · exact Nat.le_trans (s.bound l' (List.mem_cons_of_mem _ hl)) (Nat.le_max_left _ _)

def put (s : Sheet α) : Stroke α → Sheet α
  | .char a => s.write (s.line ++ [a])
  | .newline => ⟨s.line :: s.above, [], s.widest, by
      rintro l hl
      rcases List.mem_cons.mp hl with rfl | hl
      · exact Nat.zero_le _
      · exact s.bound l hl⟩
  | .back => ⟨s.above, s.line.dropLast, s.widest, by
      rintro l hl
      rcases List.mem_cons.mp hl with rfl | hl
      · have := s.bound s.line List.mem_cons_self
        rw [List.length_dropLast]
        omega
      · exact s.bound l (List.mem_cons_of_mem _ hl)⟩
  | .clear => ⟨[], [], s.widest, by simp⟩

/-- The row has had to hold `n` characters. -/
def widen (s : Sheet α) (n : Nat) : Sheet α where
  above := s.above
  line := s.line
  widest := max s.widest n
  bound l hl := Nat.le_trans (s.bound l hl) (Nat.le_max_left _ _)

def puts (s : Sheet α) (strokes : List (Stroke α)) : Sheet α := strokes.foldl put s

def lines (s : Sheet α) : List (List α) := s.above.reverse ++ [s.line]

/-- The line in row `r` of a screen of `h` rows. -/
def shown (h : Nat) (s : Sheet α) (r : Nat) : List α :=
  (s.lines.drop (s.lines.length - h)).getD r []

/-- The row of the line that is being printed. -/
def row (h : Nat) (s : Sheet α) : Nat := min s.above.length (h - 1)

/-! ## The longest line -/

theorem line_le (s : Sheet α) : s.line.length ≤ s.widest := s.bound s.line List.mem_cons_self

theorem widest_put (s : Sheet α) (o : Stroke α) : s.widest ≤ (s.put o).widest := by
  cases o with
  | char a => exact Nat.le_max_left _ _
  | newline => exact Nat.le_refl _
  | back => exact Nat.le_refl _
  | clear => exact Nat.le_refl _

theorem widest_puts (s : Sheet α) (os : List (Stroke α)) : s.widest ≤ (s.puts os).widest := by
  induction os generalizing s with
  | nil => exact Nat.le_refl _
  | cons o os ih => exact Nat.le_trans (s.widest_put o) (ih _)

/-! ## Rows -/

theorem lines_length (s : Sheet α) : s.lines.length = s.above.length + 1 := by
  unfold lines
  rw [List.length_append, List.length_reverse]
  rfl

section Rows

variable {h : Nat} (hh : 0 < h) (s : Sheet α)
include hh

theorem row_lt : s.row h < h := by
  unfold row
  omega

/-- **Which line a row shows**: the last one below the others, and nothing below it. -/
theorem shown_eq (r : Nat) : s.shown h r =
    if r < s.row h then s.above.getD (s.row h - 1 - r) [] else if r = s.row h then s.line
      else [] := by
  have hlen := s.lines_length
  have htop : s.lines.length - h + r < s.above.length ↔ r < s.row h := by
    unfold row
    omega
  unfold shown
  rw [List.getD_eq_getElem?_getD, List.getElem?_drop]
  unfold lines at hlen ⊢
  rw [hlen]
  rw [show s.lines.length = s.above.length + 1 from hlen] at htop
  split_ifs with h1 h2
  · have hlt := htop.mpr h1
    rw [List.getElem?_append_left (by rw [List.length_reverse]; exact hlt),
      List.getElem?_reverse hlt,
      List.getD_eq_getElem?_getD]
    congr 2
    unfold row at h1 ⊢
    omega
  · rw [List.getElem?_append_right (by rw [List.length_reverse]; omega), List.length_reverse, h2]
    rw [show s.above.length + 1 - h + s.row h - s.above.length = 0 by unfold row; omega]
    rfl
  · rw [List.getElem?_eq_none (by rw [hlen]; unfold row at h1 h2; omega)]
    rfl

theorem shown_row : s.shown h (s.row h) = s.line := by
  rw [s.shown_eq hh, if_neg (Nat.lt_irrefl _), if_pos rfl]

theorem shown_write (l : List α) (r : Nat) :
    (s.write l).shown h r = if r = s.row h then l else s.shown h r := by
  rw [shown_eq hh, shown_eq hh]
  show (if r < s.row h then s.above.getD (s.row h - 1 - r) [] else if r = s.row h then l
    else []) = _
  split_ifs <;> first | rfl | omega

theorem shown_newline {r : Nat} (hrow : s.row h + 1 < h) :
    (s.put .newline).row h = s.row h + 1 ∧ (s.put .newline).shown h r = s.shown h r := by
  have hrow' : (s.put .newline).row h = s.row h + 1 := by
    show min (s.above.length + 1) (h - 1) = _
    unfold row at hrow ⊢
    omega
  refine ⟨hrow', ?_⟩
  rw [shown_eq hh, shown_eq hh, hrow']
  show (if r < s.row h + 1 then (s.line :: s.above).getD (s.row h + 1 - 1 - r) []
    else if r = s.row h + 1 then [] else []) = _
  rcases Nat.lt_trichotomy r (s.row h) with hr | hr | hr
  · rw [if_pos (by omega), if_pos hr, show s.row h + 1 - 1 - r = (s.row h - 1 - r) + 1 by omega,
      List.getD_cons_succ]
  · rw [if_pos (by omega), if_neg (by omega), if_pos hr, show s.row h + 1 - 1 - r = 0 by omega,
      List.getD_cons_zero]
  · rw [if_neg (by omega), ite_self, if_neg (by omega), if_neg (by omega)]

/-- A line ends in the last row: all rows move up by one. -/
theorem shown_scroll {r : Nat} (hrow : s.row h + 1 = h) :
    (s.put .newline).row h = s.row h ∧
      (s.put .newline).shown h r = if r + 1 < h then s.shown h (r + 1) else [] := by
  have hrow' : (s.put .newline).row h = s.row h := by
    show min (s.above.length + 1) (h - 1) = _
    unfold row at hrow ⊢
    omega
  refine ⟨hrow', ?_⟩
  rw [shown_eq hh, shown_eq hh, hrow']
  show (if r < s.row h then (s.line :: s.above).getD (s.row h - 1 - r) []
    else if r = s.row h then [] else []) = _
  rcases Nat.lt_trichotomy (r + 1) (s.row h) with hr | hr | hr
  · rw [if_pos (by omega), if_pos (by omega), if_pos hr,
      show s.row h - 1 - r = (s.row h - 1 - (r + 1)) + 1 by omega, List.getD_cons_succ]
  · rw [if_pos (by omega), if_pos (by omega), if_neg (by omega), if_pos hr,
      show s.row h - 1 - r = 0 by omega, List.getD_cons_zero]
  · rw [if_neg (by omega), ite_self, if_neg (by omega)]

end Rows

end Sheet

end Kfs.Lib
