/-
A file writer with a buffer of a fixed capacity.

Bytes are counted, not kept: `written` of them have reached the file,
the last `buffered` ones have not. An append that does not fit writes the
buffer out first, and one that is larger than the buffer goes straight to
the file. So the bytes of an append reach the file when a later one does
not fit, and not before (`size_le_written_iff`).
-/
import Mathlib.Algebra.GroupWithZero.Nat
import Mathlib.Tactic.Common

namespace Lib

/-- The counts of a writer. -/
structure BufferedWriter (capacity : Nat) where
  written : Nat
  buffered : Nat
  fits : buffered ≤ capacity

namespace BufferedWriter

variable {capacity : Nat}

/-- A writer of a new file. -/
def empty : BufferedWriter capacity where
  written := 0
  buffered := 0
  fits := Nat.zero_le _

/-- The bytes it was given. -/
def size (w : BufferedWriter capacity) : Nat := w.written + w.buffered

/-- Append `n` bytes. -/
def append (w : BufferedWriter capacity) (n : Nat) : BufferedWriter capacity :=
  if h : n ≤ capacity - w.buffered then
    { w with
      buffered := w.buffered + n
      fits := Nat.le_trans (Nat.add_le_add_left h _) (Nat.le_of_eq (Nat.add_sub_cancel' w.fits)) }
  else if h : n ≤ capacity then
    { written := w.size, buffered := n, fits := h }
  else { written := w.size + n, buffered := 0, fits := Nat.zero_le _ }

/-- Appends of the given sizes, one after the other. -/
def appendAll (w : BufferedWriter capacity) (sizes : List Nat) : BufferedWriter capacity :=
  sizes.foldl append w

/-- One of the appends does not fit into a buffer with `fill` bytes in
it. -/
def overflows (capacity fill : Nat) : List Nat → Bool
  | [] => false
  | n :: sizes =>
    decide (capacity < fill + n) || overflows capacity (fill + n) sizes

variable (w : BufferedWriter capacity) (sizes : List Nat)

theorem size_append (n : Nat) : (w.append n).size = w.size + n := by
  unfold append
  split
  · exact (Nat.add_assoc ..).symm
  · split
    · rfl
    · rfl

theorem size_appendAll : (w.appendAll sizes).size = w.size + sizes.sum := by
  unfold appendAll
  induction sizes generalizing w with
  | nil => rfl
  | cons n sizes ih =>
    rw [List.foldl_cons, ih, size_append, List.sum_cons, Nat.add_assoc]

/-- An append that fits. -/
theorem append_of_fits {n : Nat} (h : w.buffered + n ≤ capacity) :
    (w.append n).written = w.written ∧ (w.append n).buffered = w.buffered + n := by
  unfold append
  rw [dif_pos (Nat.le_sub_of_add_le' h)]
  exact ⟨rfl, rfl⟩

/-- One that does not has everything before it written out. -/
theorem size_le_written_append {n : Nat} (h : capacity < w.buffered + n) :
    w.size ≤ (w.append n).written := by
  have hfits := w.fits
  unfold append
  rw [dif_neg (by omega)]
  split
  · exact Nat.le_refl _
  · exact Nat.le_add_right ..

theorem written_le_append (n : Nat) : w.written ≤ (w.append n).written := by
  by_cases h : w.buffered + n ≤ capacity
  · exact Nat.le_of_eq (w.append_of_fits h).1.symm
  · exact Nat.le_trans (Nat.le_add_right ..) (w.size_le_written_append (Nat.not_le.1 h))

theorem written_le_appendAll : w.written ≤ (w.appendAll sizes).written := by
  induction sizes generalizing w with
  | nil => exact Nat.le_refl _
  | cons n sizes ih => exact Nat.le_trans (w.written_le_append n) (ih _)

/-- Nothing is written as long as every append fits; the first one that
does not has everything before it written. -/
theorem written_appendAll : if overflows capacity w.buffered sizes then
      w.size ≤ (w.appendAll sizes).written
    else (w.appendAll sizes).written = w.written := by
  induction sizes generalizing w with
  | nil => rfl
  | cons n sizes ih =>
    have hcons : w.appendAll (n :: sizes) = (w.append n).appendAll sizes := rfl
    unfold overflows
    by_cases h : w.buffered + n ≤ capacity
    case pos =>
      obtain ⟨hwritten, hbuffered⟩ := w.append_of_fits h
      have hrest := ih (w.append n)
      rw [hbuffered, hwritten, size_append] at hrest
      rw [decide_eq_false (Nat.not_lt.2 h), Bool.false_or]
      split at hrest
      case isTrue hover =>
        rw [if_pos hover]
        exact Nat.le_trans (Nat.le_add_right ..) hrest
      case isFalse hover =>
        rw [if_neg hover]
        exact hrest
    case neg =>
      have hover := Nat.not_le.1 h
      rw [decide_eq_true hover, Bool.true_or, if_pos rfl]
      exact Nat.le_trans (w.size_le_written_append hover) (written_le_appendAll _ sizes)

/-- When everything appended so far has reached the file. -/
theorem size_le_written_iff :
    w.size ≤ (w.appendAll sizes).written
      ↔ w.buffered = 0 ∨ overflows capacity w.buffered sizes = true := by
  have hwritten := w.written_appendAll sizes
  split at hwritten
  case isTrue hover => exact iff_of_true hwritten (.inr hover)
  case isFalse hover =>
    rw [hwritten, or_iff_left hover]
    unfold size
    omega

/-- An append leaves the buffer empty only if it is larger. -/
theorem buffered_append_eq_zero {n : Nat} (hn : 0 < n) :
    (w.append n).buffered = 0 ↔ capacity < n := by
  unfold append
  split
  case isTrue h =>
    dsimp only
    omega
  case isFalse h =>
    split
    case isTrue h' =>
      dsimp only
      omega
    case isFalse h' => exact iff_of_true rfl (Nat.not_le.1 h')

end BufferedWriter

end Lib
