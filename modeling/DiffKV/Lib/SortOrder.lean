/-
What a sort by a Boolean comparison may leave.

`before a b` says that `a` is to stand before `b`. A sort needs a strict
weak order, and then puts the elements so that no later one is to stand
before an earlier one; those that are incomparable it may leave in any
order. Both are stated for the elements of one list, since a comparison
written for the entries of a list need not be an order beyond it.

A comparison that follows a lawful three-way one is a strict weak order.
-/
import Mathlib.Data.List.Nodup

namespace Lib

open List

universe u v

variable {α : Type u} {β : Type v} {before : α → α → Bool} {l l' : List α} {a b : α}

-- ==== strict weak orders

/-- Neither is to stand before the other. -/
def Incomparable (before : α → α → Bool) (a b : α) : Prop :=
  before a b = false ∧ before b a = false

/-- `before` is a strict weak order on the elements of `l`. -/
structure StrictWeakOn (before : α → α → Bool) (l : List α) : Prop where
  irrefl : ∀ a ∈ l, before a a = false
  trans : ∀ a ∈ l, ∀ b ∈ l, ∀ c ∈ l, before a b = true → before b c = true → before a c = true
  incomparable : ∀ a ∈ l, ∀ b ∈ l, ∀ c ∈ l, Incomparable before a b → Incomparable before b c →
    Incomparable before a c

/-- A comparison that follows a three-way one. -/
theorem StrictWeakOn.of_compare (cmp : α → α → Ordering) [Std.TransCmp cmp]
    (h : ∀ a ∈ l, ∀ b ∈ l, before a b = (cmp a b).isLT) : StrictWeakOn before l where
  irrefl a ha := by
    have hself : cmp a a = .eq := Std.ReflCmp.compare_self
    rw [h a ha a ha, hself]
    rfl
  trans a ha b hb c hc hab hbc := by
    rw [h a ha b hb, Ordering.isLT_iff_eq_lt] at hab
    rw [h b hb c hc, Ordering.isLT_iff_eq_lt] at hbc
    rw [h a ha c hc, Ordering.isLT_iff_eq_lt]
    exact Std.TransCmp.lt_trans hab hbc
  incomparable a ha b hb c hc hab hbc := by
    have heq : ∀ x ∈ l, ∀ y ∈ l, Incomparable before x y ↔ cmp x y = .eq := by
      intro x hx y hy
      have hswap : cmp y x = (cmp x y).swap := Std.OrientedCmp.eq_swap
      unfold Incomparable
      rw [h x hx y hy, h y hy x hx, hswap]
      cases cmp x y <;> decide
    rw [heq a ha b hb] at hab
    rw [heq b hb c hc] at hbc
    rw [heq a ha c hc]
    exact Std.TransCmp.eq_trans hab hbc

/-- A three-way comparison of what is read off the elements. -/
theorem transCmp_on (cmp : β → β → Ordering) [Std.TransCmp cmp]
    (f : α → β) : Std.TransCmp fun a b => cmp (f a) (f b) where
  eq_swap := Std.OrientedCmp.eq_swap
  isLE_trans := Std.TransCmp.isLE_trans

/-- A comparison where it is asked of two different elements. -/
def apart [DecidableEq α] (before : α → α → Bool) (a b : α) : Bool :=
  !decide (a = b) && before a b

theorem apart_of_ne [DecidableEq α] (hne : a ≠ b) : apart before a b = before a b := by
  simp [apart, hne]

-- ==== sorted lists

/-- `l'` is what a sort of `l` may leave. -/
def Sorts (before : α → α → Bool) (l l' : List α) : Prop :=
  l'.Perm l ∧ l'.Pairwise fun a b => before b a = false

/-- `a` stands somewhere before `b`. -/
def Precedes (a b : α) (l : List α) : Prop :=
  ∃ p q r, l = p ++ a :: (q ++ b :: r)

theorem precedes_or_precedes (ha : a ∈ l) (hb : b ∈ l) (hne : a ≠ b) :
    Precedes a b l ∨ Precedes b a l := by
  obtain ⟨p, q, rfl⟩ := append_of_mem ha
  rcases mem_append.1 hb with hp | hq
  · obtain ⟨p₁, p₂, rfl⟩ := append_of_mem hp
    exact .inr ⟨p₁, p₂, q, by simp⟩
  · rcases mem_cons.1 hq with rfl | hq
    · exact absurd rfl hne
    · obtain ⟨q₁, q₂, rfl⟩ := append_of_mem hq
      exact .inl ⟨p, q₁, q₂, rfl⟩

/-- What stands before something, in a list where the later is never to
stand before the earlier. -/
theorem Precedes.not_before (hl : l.Pairwise fun a b => before b a = false) (h : Precedes a b l) :
    before b a = false := by
  obtain ⟨p, q, r, rfl⟩ := h
  have hcons := (pairwise_append.1 hl).2.1
  exact (pairwise_cons.1 hcons).1 b (by simp)

theorem Sorts.precedes (h : Sorts before l l') (ha : a ∈ l) (hb : b ∈ l)
    (hne : a ≠ b) (hab : before a b = true) : Precedes a b l' := by
  rcases precedes_or_precedes (h.1.mem_iff.2 ha) (h.1.mem_iff.2 hb) hne with hpre | hpre
  · exact hpre
  · rw [hpre.not_before h.2] at hab
    cases hab

/-- What is counted in front of a place is counted in the whole list, if
the count takes what stands in front of the place and nothing else. -/
theorem countP_front {p q : List α} (P Q : α → Bool)
    (hp : ∀ x ∈ p, P x = Q x) (hq : ∀ x ∈ q, Q x = false) : p.countP P = (p ++ q).countP Q := by
  have hfront : p.countP P = p.countP Q := countP_congr fun x hx => by rw [hp x hx]
  have hback : q.countP Q = 0 := countP_eq_zero.2 fun x hx => by simp [hq x hx]
  rw [countP_append, hfront, hback, Nat.add_zero]

/-- An element of a list without repetitions has one place. -/
theorem place_unique {p q p' q' : List α} (h : (p ++ a :: q).Nodup)
    (heq : p ++ a :: q = p' ++ a :: q') : p = p' := by
  have hmid := nodup_middle.1 h
  have hnot : a ∉ p ++ q := (nodup_cons.1 hmid).1
  rw [mem_append, not_or] at hnot
  exact ((append_cons_inj_of_notMem hnot.1 hnot.2).1 heq).1

/-- The places of a list, from its first on. -/
theorem exists_place_cons {P : List α → α → Prop} {x : α} :
    (∃ p a q, x :: l = p ++ a :: q ∧ P p a) ↔ P [] x ∨ ∃ p a q, l = p ++ a :: q ∧ P (x :: p) a := by
  constructor
  · rintro ⟨p, a, q, hl, hP⟩
    cases p with
    | nil =>
      obtain ⟨rfl, rfl⟩ := cons.inj hl
      exact .inl hP
    | cons y p =>
      obtain ⟨rfl, rfl⟩ := cons.inj hl
      exact .inr ⟨p, a, q, rfl, hP⟩
  · rintro (hP | ⟨p, a, q, rfl, hP⟩)
    · exact ⟨[], x, l, rfl, hP⟩
    · exact ⟨x :: p, a, q, rfl, hP⟩

end Lib
