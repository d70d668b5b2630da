/-
Collection below a low-water mark.

Readers hold times. Things are retired at the time of the clock, and may
be collected once every reader holds a later time. A collector reads
the oldest time held, `top` if none is, and some time later collects
what was retired before it.

What was read may be out of date when it is used. It still is a bound
for the times held then if some reader held it, for the clock never
runs back. If there was no reader, `top` bounds nothing: `Inv` asks then
that readers and retirements keep apart until the bound is used.
-/
import Mathlib.Order.Lattice

namespace Lib

open List

/-- The clock, the times held in the order they were taken, the times of
what is retired and not collected, and the bounds collectors have
read. -/
structure LowWater (T : Type*) where
  now : T
  held : List T
  retired : T → Prop
  bounds : List T

namespace LowWater

variable {T : Type*} [LinearOrder T] {top : T} {s : LowWater T}

/-- What a collector reads. -/
def oldest (top : T) (s : LowWater T) : T := s.held.head?.getD top

/-- The bounds in use. -/
structure Inv (top : T) (s : LowWater T) : Prop where
  sorted : s.held.Pairwise (· ≤ ·)
  past : ∀ t ∈ s.held, t ≤ s.now
  bounded : ∀ b ∈ s.bounds, (b ≤ s.now ∧ ∀ t ∈ s.held, b ≤ t)
    ∨ (b = top ∧ ∀ r, s.retired r → ∀ t ∈ s.held, r < t)

namespace Inv

variable (h : Inv top s)

include h

/-- What lies below a bound, no reader needs. -/
theorem collects {b r t : T} (hb : b ∈ s.bounds) (hr : s.retired r)
    (hlt : r < b) (ht : t ∈ s.held) : r < t := by
  rcases h.bounded b hb with ⟨-, hle⟩ | ⟨-, hall⟩
  · exact lt_of_lt_of_le hlt (hle t ht)
  · exact hall r hr t ht

theorem advance {now : T} (hnow : s.now ≤ now) : Inv top { s with now } where
  sorted := h.sorted
  past t ht := le_trans (h.past t ht) hnow
  bounded b hb := by
    rcases h.bounded b hb with ⟨hle, hall⟩ | hall
    · exact .inl ⟨le_trans hle hnow, hall⟩
    · exact .inr hall

theorem take (htop : top ∈ s.bounds → ∀ r, s.retired r → r < s.now) :
    Inv top { s with held := s.held ++ [s.now] } where
  sorted := by
    rw [pairwise_append]
    refine ⟨h.sorted, pairwise_singleton .., ?_⟩
    intro t ht t' ht'
    rw [mem_singleton] at ht'
    subst ht'
    exact h.past t ht
  past t ht := by
    rcases mem_append.1 ht with ht | ht
    · exact h.past t ht
    · exact le_of_eq (mem_singleton.1 ht)
  bounded b hb := by
    rcases h.bounded b hb with ⟨hle, hall⟩ | ⟨rfl, hall⟩
    · refine .inl ⟨hle, fun t ht => ?_⟩
      rcases mem_append.1 ht with ht | ht
      · exact hall t ht
      · exact mem_singleton.1 ht ▸ hle
    · refine .inr ⟨rfl, fun r hr t ht => ?_⟩
      rcases mem_append.1 ht with ht | ht
      · exact hall r hr t ht
      · exact mem_singleton.1 ht ▸ htop hb r hr

theorem release (i : Nat) : Inv top { s with held := s.held.eraseIdx i } where
  sorted := h.sorted.sublist (eraseIdx_sublist ..)
  past t ht := h.past t (mem_of_mem_eraseIdx ht)
  bounded b hb := by
    rcases h.bounded b hb with ⟨hle, hall⟩ | ⟨htop, hall⟩
    · exact .inl ⟨hle, fun t ht => hall t (mem_of_mem_eraseIdx ht)⟩
    · exact .inr ⟨htop, fun r hr t ht =>
        hall r hr t (mem_of_mem_eraseIdx ht)⟩

theorem retire {retired : T → Prop}
    (hnew : ∀ r, retired r → s.retired r ∨ (top ∈ s.bounds → s.held = [])) :
    Inv top { s with retired } where
  sorted := h.sorted
  past := h.past
  bounded b hb := by
    rcases h.bounded b hb with hall | ⟨rfl, hall⟩
    · exact .inl hall
    · refine .inr ⟨rfl, fun r hr t ht => ?_⟩
      rcases hnew r hr with hr | hnone
      · exact hall r hr t ht
      · rw [hnone hb] at ht
        cases ht

theorem read : Inv top { s with bounds := s.bounds ++ [s.oldest top] } where
  sorted := h.sorted
  past := h.past
  bounded b hb := by
    rcases mem_append.1 hb with hb | hb
    · exact h.bounded b hb
    rw [mem_singleton] at hb
    subst hb
    unfold oldest
    have hsorted := h.sorted
    have hpast := h.past
    cases hheld : s.held with
    | nil => exact .inr ⟨rfl, fun _ _ _ ht => nomatch ht⟩
    | cons t ts =>
      rw [hheld] at hsorted hpast
      refine .inl ⟨hpast t mem_cons_self, fun t' ht' => ?_⟩
      rcases mem_cons.1 ht' with rfl | ht'
      · exact le_rfl
      · exact rel_of_pairwise_cons hsorted ht'

theorem use (i : Nat) : Inv top { s with bounds := s.bounds.eraseIdx i } where
  sorted := h.sorted
  past := h.past
  bounded b hb := h.bounded b (mem_of_mem_eraseIdx hb)

end Inv

end LowWater

end Lib
