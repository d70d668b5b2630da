/-
Where a property begins along a list.

A property that, once it holds of an element, holds of every later one
cuts the list in two at `findIdx`. Two such properties cut out the part
between two positions, which is what a search for a lower and an upper
bound in an ordered container gives: the elements that have the one
property and lack the other. Nothing is assumed of the order itself, and
the positions need not be in order.

`scan` is a loop with an iterator: it goes on, element by element, until
the iterator equals the position to stop at. It has no result if the end
of the list comes first.
-/
import Mathlib.Data.List.Basic

namespace Lib

open List

universe u

variable {α : Type u} {p q : α → Bool} {l : List α} {a : α}

-- ==== properties

/-- The property holds of everything behind an element it holds of. -/
def Rising (p : α → Bool) (l : List α) : Prop :=
  l.Pairwise fun a b => p a = true → p b = true

theorem Rising.take_findIdx (h : Rising p l) : l.take (l.findIdx p) = l.filter (!p ·) := by
  induction l with
  | nil => rfl
  | cons x xs ih =>
    obtain ⟨hx, hxs⟩ := pairwise_cons.1 h
    rw [findIdx_cons]
    cases hp : p x with
    | false =>
      rw [filter_cons_of_pos (by simp [hp])]
      exact congrArg (x :: ·) (ih hxs)
    | true =>
      have hnone : xs.filter (!p ·) = [] := filter_eq_nil_iff.2 fun y hy => by simp [hx y hy hp]
      rw [filter_cons_of_neg (by simp [hp]), hnone]
      rfl

/-- What lies from where `p` begins up to where `q` begins. -/
theorem Rising.between (hp : Rising p l) (hq : Rising q l) :
    (l.take (l.findIdx q)).drop (l.findIdx p) = l.filter fun a => p a && !q a := by
  induction l with
  | nil => rfl
  | cons x xs ih =>
    obtain ⟨hpx, hpxs⟩ := pairwise_cons.1 hp
    obtain ⟨hqx, hqxs⟩ := pairwise_cons.1 hq
    rw [findIdx_cons, findIdx_cons]
    cases hqv : q x with
    | true =>
      have hnone : xs.filter (fun a => p a && !q a) = [] :=
        filter_eq_nil_iff.2 fun y hy => by simp [hqx y hy hqv]
      rw [filter_cons_of_neg (by simp [hqv]), hnone]
      exact drop_nil
    | false =>
      cases hpv : p x with
      | false =>
        rw [filter_cons_of_neg (by simp [hpv])]
        exact ih hpxs hqxs
      | true =>
        have hrest : xs.filter (fun a => p a && !q a) = xs.filter (!q ·) :=
          filter_congr fun y hy => by simp [hpx y hy hpv]
        rw [filter_cons_of_pos (by simp [hpv, hqv]), hrest, ← Rising.take_findIdx hqxs]
        rfl

/-- The positions are in order unless some element has `q` and lacks
`p`. -/
theorem Rising.findIdx_le_iff (hp : Rising p l) (hq : Rising q l) :
    l.findIdx p ≤ l.findIdx q ↔ ∀ a ∈ l, q a = true → p a = true := by
  induction l with
  | nil => simp
  | cons x xs ih =>
    obtain ⟨hpx, hpxs⟩ := pairwise_cons.1 hp
    obtain ⟨hqx, hqxs⟩ := pairwise_cons.1 hq
    rw [findIdx_cons, findIdx_cons, forall_mem_cons]
    cases hpv : p x with
    | true =>
      have hall : ∀ a ∈ xs, q a = true → p a = true := fun a ha _ => hpx a ha hpv
      simpa using hall
    | false =>
      cases hqv : q x with
      | true => simp
      | false => simpa using ih hpxs hqxs

-- ==== iterators

/-- The elements an iterator at position `it` comes by until it is at
`stop`; `l` is what lies ahead of it. -/
def scan : List α → Nat → Nat → Option (List α)
  | [], it, stop => if it = stop then some [] else none
  | a :: l, it, stop =>
    if it = stop then some [] else (scan l (it + 1) stop).map (a :: ·)

/-- The iterator stops exactly if it started at or before the position to
stop at, and has then come by what lies between. -/
theorem scan_eq {it stop : Nat} (h : stop ≤ it + l.length) :
    scan l it stop = if it ≤ stop then some (l.take (stop - it)) else none := by
  induction l generalizing it with
  | nil =>
    rw [length_nil] at h
    unfold scan
    by_cases hit : it = stop
    · rw [if_pos hit, if_pos (by omega), take_nil]
    · rw [if_neg hit, if_neg (by omega)]
  | cons a l ih =>
    rw [length_cons] at h
    unfold scan
    by_cases hit : it = stop
    · rw [if_pos hit, if_pos (by omega), hit, Nat.sub_self, take_zero]
    · rw [if_neg hit, ih (by omega)]
      by_cases hle : it ≤ stop
      · rw [if_pos (by omega), if_pos hle,
          show stop - it = stop - (it + 1) + 1 by omega, take_succ_cons]
        rfl
      · rw [if_neg (by omega), if_neg hle]
        rfl

end Lib
